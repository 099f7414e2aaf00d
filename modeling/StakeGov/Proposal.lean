import StakeGov.Rlp.Canonical

/-!
# Governance proposals

A proposal that passed the vote. It travels inside a transaction as its
canonical form.
-/

namespace StakeGov

structure Proposal where
  id : Word := 0
  action : Word := 0
  /-- The account the call appears to come from. -/
  sender : Address := 0
  target : Address := 0
  value : Word := 0
  data : Bytes := []
deriving DecidableEq, Repr

inductive Action where
  | call
  | erase
  /-- A code without a meaning; executing it fails. -/
  | unsupported (code : Word)
deriving DecidableEq, Repr

def Action.text : Action → String
  | .call => "Call"
  | .erase => "EraseCode"
  | .unsupported code => "Unsupported(" ++ code.decimal ++ ")"

namespace Proposal

def kind (p : Proposal) : Action :=
  if p.action = 0 then .call
  else if p.action = 1 then .erase
  else .unsupported p.action

def fields (p : Proposal) : Bytes :=
  Rlp.nat p.id.toNat ++ Rlp.nat p.action.toNat ++ Rlp.string (Address.bytes p.sender) ++
    Rlp.string (Address.bytes p.target) ++ Rlp.nat p.value.toNat ++ Rlp.string p.data

def readFields : Rlp.Reader Proposal := do
  let id ← Rlp.readWord
  let action ← Rlp.readWord
  let sender ← Rlp.readAddress
  let target ← Rlp.readAddress
  let value ← Rlp.readWord
  let data ← Rlp.readString
  return { id, action, sender, target, value, data }

instance : Canonical Proposal where
  write p := Rlp.list p.fields
  read := Rlp.readList readFields

end Proposal

end StakeGov
