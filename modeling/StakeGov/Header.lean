import StakeGov.Keccak
import StakeGov.Rlp.Canonical

/-!
# Block headers

The fields of a header that the engine reads. A block is named by the hash of
its header's canonical form.
-/

namespace StakeGov

structure Header where
  parentHash : Hash := 0
  coinbase : Address := 0
  /-- The root of the ledger after the block. -/
  root : Hash := 0
  number : UInt64 := 0
  gasLimit : UInt64 := 0
  gasUsed : UInt64 := 0
  time : UInt64 := 0
  /-- Vanity, validators (on epoch blocks) and seal. -/
  extra : Bytes := []
deriving DecidableEq, Repr

namespace Header

def fields (h : Header) : Bytes :=
  Rlp.string h.parentHash.bytes ++ Rlp.string (Address.bytes h.coinbase) ++
    Rlp.string h.root.bytes ++ Rlp.nat h.number.toNat ++ Rlp.nat h.gasLimit.toNat ++
    Rlp.nat h.gasUsed.toNat ++ Rlp.nat h.time.toNat ++ Rlp.string h.extra

def readFields : Rlp.Reader Header := do
  let parentHash ← Rlp.readHash
  let coinbase ← Rlp.readAddress
  let root ← Rlp.readHash
  let number ← Rlp.readUInt64
  let gasLimit ← Rlp.readUInt64
  let gasUsed ← Rlp.readUInt64
  let time ← Rlp.readUInt64
  let extra ← Rlp.readString
  return { parentHash, coinbase, root, number, gasLimit, gasUsed, time, extra }

instance : Canonical Header where
  write h := Rlp.list h.fields
  read := Rlp.readList readFields

def hash (h : Header) : Hash :=
  keccak256 (write h)

end Header

end StakeGov
