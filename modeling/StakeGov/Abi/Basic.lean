import StakeGov.Word

/-!
# Call data: types and values

The types that contract methods declare and the values that are passed. A value
has at most one of the types up to the width of an integer.
-/

namespace StakeGov.Abi

inductive Ty where
  | address
  /-- Any value fits an integer of 256 bits or more. -/
  | uint (bits : Nat)
  | bool
  | bytes32
  | bytes
  | string
  | array (element : Ty)
deriving DecidableEq, Repr

inductive Token where
  | address (a : Address)
  | uint (v : Word)
  | bool (b : Bool)
  | bytes32 (w : Word)
  | bytes (bs : Bytes)
  | string (s : String)
  | array (items : List Token)
deriving Repr

def Ty.text : Ty → String
  | .address => "address"
  | .uint bits => s!"uint{bits}"
  | .bool => "bool"
  | .bytes32 => "bytes32"
  | .bytes => "bytes"
  | .string => "string"
  | .array element => element.text ++ "[]"

def Token.kind : Token → String
  | .address _ => "address"
  | .uint _ => "uint"
  | .bool _ => "bool"
  | .bytes32 _ => "bytes32"
  | .bytes _ => "bytes"
  | .string _ => "string"
  | .array _ => "array"

inductive Error where
  | outOfBounds (offset needed available : Nat)
  | outOfRange (ty : Ty)
  | offsetOutOfRange
  | typeMismatch (expected : Ty) (got : String)
  | argumentCount (expected got : Nat)
  | invalidText
deriving DecidableEq, Repr

def Error.message : Error → String
  | .outOfBounds offset needed available =>
    s!"abi: cannot read {needed} bytes at offset {offset}, have {available}"
  | .outOfRange ty => "abi: value out of range for " ++ ty.text
  | .offsetOutOfRange => "abi: value out of range for offset"
  | .typeMismatch expected got => "abi: expected " ++ expected.text ++ ", got " ++ got
  | .argumentCount expected got => s!"abi: expected {expected} arguments, got {got}"
  | .invalidText => "abi: invalid utf-8 string"

def fits (bits : Nat) (v : Word) : Bool :=
  256 ≤ bits || v.bitLength ≤ bits

-- ---------------------------------------------------------------------------
-- Checking values against types
-- ---------------------------------------------------------------------------

mutual

def Token.check : Token → Ty → Except Error Unit
  | .address _, .address | .bool _, .bool | .bytes32 _, .bytes32
  | .bytes _, .bytes | .string _, .string => .ok ()
  | .uint v, .uint bits => if fits bits v then .ok () else .error (.outOfRange (.uint bits))
  | .array items, .array element => checkEach items element
  | token, ty => .error (.typeMismatch ty token.kind)

/-- The first item that is not of the type is reported. -/
def checkEach : List Token → Ty → Except Error Unit
  | [], _ => .ok ()
  | item :: items, ty => do
    item.check ty
    checkEach items ty

end

/-- Checks values against types of the same number, from left to right. -/
def checkAll : List Ty → List Token → Except Error Unit
  | ty :: tys, token :: tokens => do
    token.check ty
    checkAll tys tokens
  | _, _ => .ok ()

-- ---------------------------------------------------------------------------
-- Taking values apart
-- ---------------------------------------------------------------------------

namespace Token

def address? : Token → Option Address
  | .address a => some a
  | _ => none

def uint? : Token → Option Word
  | .uint v => some v
  | _ => none

def bytes32? : Token → Option Word
  | .bytes32 w => some w
  | _ => none

def bytes? : Token → Option Bytes
  | .bytes bs => some bs
  | _ => none

def string? : Token → Option String
  | .string s => some s
  | _ => none

def array? : Token → Option (List Token)
  | .array items => some items
  | _ => none

def addresses? (token : Token) : Option (List Address) := do
  let items ← token.array?
  items.mapM address?

def ofAddresses (list : List Address) : Token :=
  .array (list.map .address)

end Token

end StakeGov.Abi
