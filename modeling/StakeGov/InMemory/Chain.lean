import StakeGov.Validators
import StakeGov.Vm

/-!
# Headers and snapshots in memory

A store of headers by hash, with the latest one stored at each height in force;
snapshots by height; and chains of headers made up for a purpose.
-/

namespace StakeGov

structure HeaderStore where
  byHash : Table Hash Header := ∅
  /-- The hash of the header in force at a height. -/
  inForce : Table UInt64 Hash := ∅

namespace HeaderStore

def insert (s : HeaderStore) (h : Header) : HeaderStore where
  byHash := s.byHash.insert h.hash h
  inForce := s.inForce.insert h.number h.hash

def size (s : HeaderStore) : Nat := s.byHash.size

def header? (s : HeaderStore) (hash : Hash) (number : UInt64) : Option Header :=
  (s.byHash.get? hash).filter fun h => h.number = number

def headerAt? (s : HeaderStore) (number : UInt64) : Option Header := do
  s.byHash.get? (← s.inForce.get? number)

def reader (s : HeaderStore) : ChainReader where
  header := s.header?
  headerByNumber := s.headerAt?

end HeaderStore

abbrev SnapshotStore := Table UInt64 Snapshot

namespace SnapshotStore

def add (s : SnapshotStore) (snapshot : Snapshot) : SnapshotStore :=
  s.insert snapshot.number snapshot

/-- The snapshot at a height, whatever the hash of the block. -/
def find (s : SnapshotStore) (number : UInt64) (_hash : Hash) :
    Except ValidationError Snapshot :=
  match s.get? number with
  | some snapshot => .ok snapshot
  | none => .error (.snapshot s!"no snapshot at {number.toNat}")

end SnapshotStore

abbrev LedgerStore := Table Hash Ledger

def LedgerStore.find (s : LedgerStore) (root : Hash) : Except StateError Ledger :=
  match s.get? root with
  | some ledger => .ok ledger
  | none => .error (.unknownRoot root)

-- ---------------------------------------------------------------------------
-- Made-up chains
-- ---------------------------------------------------------------------------

namespace SampleChain

def header (number : UInt64) (parentHash : Hash) (coinbase : Address) : Header where
  parentHash := parentHash
  coinbase := coinbase
  root := BitVec.ofNat 256 (number.toNat % 256)
  number := number
  gasLimit := 30000000
  gasUsed := 21000
  time := UInt64.ofNat (1700000000 + 3 * number.toNat)
  extra := Bytes.zeros (ExtraData.vanityLength + ExtraData.sealLength)

/-- The header of a linked chain, which names the validators at the start of every
epoch; an epoch of zero blocks never starts. -/
def link (epoch : UInt64) (coinbase : Address) (validators : List Address) (number : UInt64)
    (parentHash : Hash) : Header :=
  let h := header number parentHash coinbase
  if epoch ≠ 0 ∧ number % epoch = 0 then { h with extra := ExtraData.encode [] validators }
  else h

def headersFrom (epoch : UInt64) (coinbase : Address) (validators : List Address) :
    Nat → UInt64 → Hash → List Header
  | 0, _, _ => []
  | count + 1, number, parentHash =>
    let h := link epoch coinbase validators number parentHash
    h :: headersFrom epoch coinbase validators count (number + 1) h.hash

def headers (length : Nat) (epoch : UInt64) (coinbase : Address) (validators : List Address) :
    List Header :=
  headersFrom epoch coinbase validators length 0 0

def repeatedByte (b : UInt8) : Address :=
  Address.ofBytes (List.replicate 20 b)

def validators (count : UInt8) : List Address :=
  (List.range count.toNat).map fun i => repeatedByte (UInt8.ofNat (i + 1))

end SampleChain

end StakeGov
