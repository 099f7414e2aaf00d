import StakeGov.Contract.Interface
import StakeGov.Ledger

/-!
# Storage of the address policy

What the engine reads from the storage of the address-policy contract without
calling it: when its lists last changed and who may create contracts.
-/

namespace StakeGov.PolicyStorage

def slot (l : Ledger) (index : Word) : Word :=
  l.storageAt SystemContract.addressList.address index

def blacklistUpdated (l : Ledger) : UInt64 :=
  (slot l 7).toUInt64Saturating

def rulesUpdated (l : Ledger) : UInt64 :=
  (slot l 8).toUInt64Saturating

/-- Whether the contract restricts who may create contracts: the last byte but
one of its first slot is one. -/
def restrictsDevelopers (l : Ledger) : Bool :=
  (slot l 0).bytes[30]? = some 1

def developerSlot (a : Address) : Word :=
  keccak256 (Bytes.bigEndian 32 a.toNat ++ Bytes.bigEndian 32 2)

def isDeveloper (l : Ledger) (a : Address) : Bool :=
  slot l (developerSlot a) ≠ 0

end StakeGov.PolicyStorage
