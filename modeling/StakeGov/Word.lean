import StakeGov.Bytes

/-!
# Words, hashes and addresses

Amounts and hashes are 256-bit words, accounts are 160-bit addresses; both have
a fixed big-endian byte form. Heights, nonces and gas are 64-bit
and their sums and differences stop at the ends of the range.
-/

namespace StakeGov

abbrev Word := BitVec 256

abbrev Hash := Word

abbrev Address := BitVec 160

namespace Word

def bytes (w : Word) : Bytes :=
  Bytes.bigEndian 32 w.toNat

def ofBytes (bs : Bytes) : Word :=
  BitVec.ofNat 256 (Bytes.toNat bs)

def addSaturating (a b : Word) : Word :=
  if BitVec.uaddOverflow a b then BitVec.allOnes 256 else a + b

def bitLength (w : Word) : Nat :=
  if w = 0 then 0 else w.toNat.log2 + 1

/-- The account in the low 20 bytes. -/
def address (w : Word) : Address :=
  w.setWidth 160

def toUInt64Saturating (w : Word) : UInt64 :=
  UInt64.ofNatClamp w.toNat

def decimal (w : Word) : String :=
  toString w.toNat

def hex (w : Word) : String :=
  "0x" ++ Bytes.hex w.bytes

@[simp] theorem length_bytes (w : Word) : w.bytes.length = 32 := by simp [bytes]

end Word

namespace Address

def bytes (a : Address) : Bytes :=
  Bytes.bigEndian 20 a.toNat

def ofBytes (bs : Bytes) : Address :=
  BitVec.ofNat 160 (Bytes.toNat bs)

def word (a : Address) : Word :=
  a.setWidth 256

@[simp] theorem length_bytes (a : Address) : (bytes a).length = 20 := by simp [bytes]

theorem address_word (a : Address) : (word a).address = a := by
  simp [word, Word.address]

end Address

-- ---------------------------------------------------------------------------
-- 64-bit counters
-- ---------------------------------------------------------------------------

def saturatingSucc (n : UInt64) : UInt64 :=
  UInt64.ofNatClamp (n.toNat + 1)

def saturatingPred (n : UInt64) : UInt64 :=
  UInt64.ofNat (n.toNat - 1)

end StakeGov
