import StakeGov.Abi.Basic

/-!
# Call data: encoding

The form of a row of values is a row of heads, 32 bytes each, followed by the
tails. A static value is its own head; a dynamic value has as head the distance
from the first head to its tail.
-/

namespace StakeGov.Abi

inductive Part where
  | inline (word : Bytes)
  | behind (tail : Bytes)
deriving DecidableEq, Repr

def Part.tail : Part → Bytes
  | .inline _ => []
  | .behind tail => tail

/-- The heads; `at` is where the next tail starts. -/
def heads : Nat → List Part → Bytes
  | _, [] => []
  | start, .inline word :: parts => word ++ heads start parts
  | start, .behind tail :: parts =>
    Bytes.bigEndian 32 start ++ heads (start + tail.length) parts

def layout (parts : List Part) : Bytes :=
  heads (32 * parts.length) parts ++ parts.flatMap Part.tail

/-- The length, then the bytes filled up with zeros to a multiple of 32. -/
def counted (bs : Bytes) : Bytes :=
  Bytes.bigEndian 32 bs.length ++ bs ++ Bytes.zeros ((32 - bs.length % 32) % 32)

mutual

def Token.part : Token → Part
  | .address a => .inline (Bytes.zeros 12 ++ Address.bytes a)
  | .uint v => .inline v.bytes
  | .bool b => .inline (Bytes.bigEndian 32 b.toNat)
  | .bytes32 w => .inline w.bytes
  | .bytes bs => .behind (counted bs)
  | .string s => .behind (counted (Bytes.ofText s))
  | .array items => .behind (Bytes.bigEndian 32 items.length ++ layout (parts items))

def parts : List Token → List Part
  | [] => []
  | token :: tokens => token.part :: parts tokens

end

def encode (tokens : List Token) : Bytes :=
  layout (parts tokens)

def encodeChecked (tys : List Ty) (tokens : List Token) : Except Error Bytes := do
  if tys.length ≠ tokens.length then
    throw (.argumentCount tys.length tokens.length)
  checkAll tys tokens
  return encode tokens

end StakeGov.Abi
