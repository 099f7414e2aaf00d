import StakeGov.Abi.Decode
import StakeGov.Keccak

/-!
# Methods and revert reasons

A call names its method by the first four bytes of the hash of its signature. A
revert with a reason carries the call data of a method `Error(string)`.
-/

namespace StakeGov.Abi

structure Method where
  name : String
  inputs : List Ty
  outputs : List Ty
deriving DecidableEq, Repr

def selectorOf (signature : String) : Bytes :=
  (Keccak.digest (Bytes.ofText signature)).take 4

namespace Method

/-- The name and the argument types, such as `punish(address)`. -/
def signature (m : Method) : String :=
  m.name ++ "(" ++ String.intercalate "," (m.inputs.map Ty.text) ++ ")"

def selector (m : Method) : Bytes :=
  selectorOf m.signature

def encodeInput (m : Method) (args : List Token) : Except Error Bytes := do
  return m.selector ++ (← encodeChecked m.inputs args)

def decodeOutput (m : Method) (data : Bytes) : Except Error (List Token) :=
  decode m.outputs data

end Method

-- ---------------------------------------------------------------------------
-- Revert reasons
-- ---------------------------------------------------------------------------

def revertSelector : Bytes := [0x08, 0xc3, 0x79, 0xa0]

def encodeRevertReason (reason : String) : Bytes :=
  revertSelector ++ encode [.string reason]

def revertReason? (data : Bytes) : Option String :=
  if data.take 4 = revertSelector then
    match decode [.string] (data.drop 4) with
    | .ok [.string reason] => some reason
    | _ => none
  else none

end StakeGov.Abi
