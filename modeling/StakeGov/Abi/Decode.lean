import StakeGov.Abi.Encode

/-!
# Call data: decoding

Values are read by following the heads; whatever else the input holds is
ignored, and tails may overlap. The elements of an array are read from all of
the input that follows the count. Positions are 64-bit: one that is not is
refused before it is used.
-/

namespace StakeGov.Abi

def positionBound : Nat := UInt64.size

def slice (data : Bytes) (offset needed : Nat) : Except Error Bytes :=
  if offset + needed < positionBound ∧ offset + needed ≤ data.length then
    .ok ((data.drop offset).take needed)
  else .error (.outOfBounds offset needed data.length)

def readWord (data : Bytes) (offset : Nat) : Except Error Word := do
  return Word.ofBytes (← slice data offset 32)

def readPosition (data : Bytes) (offset : Nat) : Except Error Nat := do
  let v ← readWord data offset
  if v.toNat < positionBound then return v.toNat else throw .offsetOutOfRange

def decodeWord (ty : Ty) (w : Word) : Except Error Token :=
  match ty with
  | .address => if w.bitLength ≤ 160 then .ok (.address w.address) else .error (.outOfRange ty)
  | .uint bits => if fits bits w then .ok (.uint w) else .error (.outOfRange ty)
  | .bool =>
    if w = 0 then .ok (.bool false)
    else if w = 1 then .ok (.bool true)
    else .error (.outOfRange ty)
  | .bytes32 => .ok (.bytes32 w)
  | .bytes | .string | .array _ => .error (.outOfRange ty)

/-- Reads `count` values of one type from consecutive heads. -/
def decodeRun (decodeAt : Nat → Except Error Token) : Nat → Nat → Except Error (List Token)
  | _, 0 => .ok []
  | index, count + 1 => do
    let token ← decodeAt (32 * index)
    let tokens ← decodeRun decodeAt (index + 1) count
    return token :: tokens

def bodyStart (offset : Nat) : Nat :=
  min (offset + 32) (positionBound - 1)

/-- The input that array elements are read from, once it is known to hold a head
for each of them. -/
def arrayBody (data : Bytes) (offset count : Nat) : Except Error Bytes := do
  let start := bodyStart offset
  if positionBound ≤ 32 * count then
    throw (.outOfBounds start (positionBound - 1) data.length)
  let body := data.drop start
  let _ ← slice body 0 (32 * count)
  return body

/-- The value of a type whose head is at the given position. -/
def decodeAt : Ty → Bytes → Nat → Except Error Token
  | .bytes, data, pos => do
    let offset ← readPosition data pos
    let length ← readPosition data offset
    return .bytes (← slice data (bodyStart offset) length)
  | .string, data, pos => do
    let offset ← readPosition data pos
    let length ← readPosition data offset
    match Bytes.text? (← slice data (bodyStart offset) length) with
    | some s => return .string s
    | none => throw .invalidText
  | .array element, data, pos => do
    let offset ← readPosition data pos
    let count ← readPosition data offset
    let body ← arrayBody data offset count
    return .array (← decodeRun (decodeAt element body) 0 count)
  | ty, data, pos => do
    decodeWord ty (← readWord data pos)

def decodeFrom (data : Bytes) : Nat → List Ty → Except Error (List Token)
  | _, [] => .ok []
  | index, ty :: tys => do
    let token ← decodeAt ty data (32 * index)
    let tokens ← decodeFrom data (index + 1) tys
    return token :: tokens

def decode (tys : List Ty) (data : Bytes) : Except Error (List Token) :=
  decodeFrom data 0 tys

end StakeGov.Abi
