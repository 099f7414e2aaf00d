import StakeGov.Table

/-!
# Validators

The validators of an epoch stand in the extra-data of its first header, between
a vanity of 32 bytes and a seal of 65. A snapshot is the set of validators in
force after a block together with who signed recently; the turn goes round the
set in ascending order of address.
-/

namespace StakeGov

def maxValidators : Nat := 21

/-- The list in ascending order, repetitions kept. -/
def sortAddresses (list : List Address) : List Address :=
  list.mergeSort fun a b => a.toNat ≤ b.toNat

-- ---------------------------------------------------------------------------
-- Extra-data
-- ---------------------------------------------------------------------------

namespace ExtraData

def vanityLength : Nat := 32

def sealLength : Nat := 65

def addresses : Nat → Bytes → List Address
  | 0, _ => []
  | n + 1, bs => Address.ofBytes (bs.take 20) :: addresses n (bs.drop 20)

/-- What stands between the vanity and the seal, nothing if there is no room. -/
def body (extra : Bytes) : Bytes :=
  (extra.take (extra.length - sealLength)).drop vanityLength

/-- The validators named in extra-data. A part of an address at the end of the
body is ignored. -/
def validators (extra : Bytes) : List Address :=
  addresses ((body extra).length / 20) (body extra)

/-- The vanity, cut or filled up with zeros. -/
def fitVanity (vanity : Bytes) : Bytes :=
  vanity.take vanityLength ++ Bytes.zeros (vanityLength - vanity.length)

def encode (vanity : Bytes) (validators : List Address) : Bytes :=
  fitVanity vanity ++ validators.flatMap Address.bytes ++ Bytes.zeros sealLength

end ExtraData

-- ---------------------------------------------------------------------------
-- Snapshots
-- ---------------------------------------------------------------------------

/-- A set of addresses, in ascending order. -/
structure AddressSet where
  members : Table Address Unit

namespace AddressSet

def ofList (list : List Address) : AddressSet :=
  ⟨Table.ofList (list.map fun a => (a, ()))⟩

def toList (s : AddressSet) : List Address := s.members.keys

def size (s : AddressSet) : Nat := s.toList.length

end AddressSet

structure Snapshot where
  number : UInt64 := 0
  hash : Hash := 0
  validators : AddressSet := .ofList []
  /-- Who signed the recent blocks, by height. -/
  recents : Table UInt64 Address := ∅

namespace Snapshot

/-- Whose turn it is at a height; nobody's if there are no validators. -/
def turn (s : Snapshot) (number : UInt64) : Option Address :=
  s.validators.toList[number.toNat % s.validators.size]?

def signedRecently (s : Snapshot) (validator : Address) : Bool :=
  s.recents.values.any (· = validator)

end Snapshot

end StakeGov
