import StakeGov.Word

/-!
# The recursive length format

An item is a byte string or a list of items. A byte below `0x80` stands for
itself; any other string, and every list, follows a head that gives its kind and
its length, with the length's own bytes spelled out from 56 on. Every item has
one admissible form.
-/

namespace StakeGov.Rlp

inductive Error where
  | overflow
  | leadingZero
  | inputTooShort
  | nonCanonicalByte
  | nonCanonicalSize
  | unexpectedLength
  | unexpectedString
  | unexpectedList
  | listLength (got expected : Nat)
deriving DecidableEq, Repr

def Error.message : Error → String
  | .overflow => "overflow"
  | .leadingZero => "leading zero"
  | .inputTooShort => "input too short"
  | .nonCanonicalByte => "non-canonical single byte"
  | .nonCanonicalSize => "non-canonical size"
  | .unexpectedLength => "unexpected length"
  | .unexpectedString => "unexpected string"
  | .unexpectedList => "unexpected list"
  | .listLength got expected =>
    s!"unexpected list length (got {got}, expected {expected})"

-- ---------------------------------------------------------------------------
-- Writing
-- ---------------------------------------------------------------------------

/-- The head of an item of the given length; `base` is `0x80` for strings and
`0xc0` for lists. -/
def head (base length : Nat) : Bytes :=
  if length < 56 then [UInt8.ofNat (base + length)]
  else UInt8.ofNat (base + 55 + Bytes.width length) :: Bytes.shortest length

def string (bs : Bytes) : Bytes :=
  match bs with
  | [b] => if b < 0x80 then [b] else [0x81, b]
  | _ => head 0x80 bs.length ++ bs

def list (payload : Bytes) : Bytes :=
  head 0xc0 payload.length ++ payload

def nat (v : Nat) : Bytes :=
  string (Bytes.shortest v)

-- ---------------------------------------------------------------------------
-- Reading
-- ---------------------------------------------------------------------------

abbrev Reader := StateT Bytes (Except Error)

structure Head where
  isList : Bool
  length : Nat
deriving DecidableEq, Repr

def unpadded (n : Nat) (bs : Bytes) : Except Error Nat :=
  if n < bs.length then .error .overflow
  else if bs.head? = some 0 then .error .leadingZero
  else .ok (Bytes.toNat bs)

def Head.within (h : Head) (rest : Bytes) : Except Error (Head × Bytes) :=
  if rest.length < h.length then .error .inputTooShort else .ok (h, rest)

def longHead (isList : Bool) (n : Nat) (rest : Bytes) : Except Error (Head × Bytes) := do
  if rest.length < n then throw .inputTooShort
  let length ← unpadded 8 (rest.take n)
  if length < 56 then throw .nonCanonicalSize
  Head.within ⟨isList, length⟩ (rest.drop n)

/-- Splits the input at the start of the item's payload. A byte below `0x80` is
its own payload. -/
def splitHead : Bytes → Except Error (Head × Bytes)
  | [] => .error .inputTooShort
  | b :: rest =>
    if b < 0x80 then .ok (⟨false, 1⟩, b :: rest)
    else if b < 0xb8 then
      let length := b.toNat - 0x80
      if length = 1 then
        match rest with
        | [] => .error .inputTooShort
        | c :: _ => if c < 0x80 then .error .nonCanonicalByte else .ok (⟨false, 1⟩, rest)
      else Head.within ⟨false, length⟩ rest
    else if b < 0xc0 then longHead false (b.toNat - 0xb7) rest
    else if b < 0xf8 then Head.within ⟨true, b.toNat - 0xc0⟩ rest
    else longHead true (b.toNat - 0xf7) rest

def readHead : Reader Head :=
  fun input => splitHead input

def readString : Reader Bytes := do
  let h ← readHead
  if h.isList then throw .unexpectedList
  let input ← get
  set (input.drop h.length)
  return input.take h.length

def readFixed (n : Nat) : Reader Bytes := do
  let bs ← readString
  if bs.length ≠ n then throw .unexpectedLength
  return bs

def readUInt64 : Reader UInt64 := do
  let v ← unpadded 8 (← readString)
  return UInt64.ofNat v

/-- A leading zero is reported before a value that is too large. -/
def readWord : Reader Word := do
  let bs ← readString
  if bs.head? = some 0 then throw .leadingZero
  let v ← unpadded 32 bs
  return BitVec.ofNat 256 v

def readHash : Reader Hash := do
  return Word.ofBytes (← readFixed 32)

def readAddress : Reader Address := do
  return Address.ofBytes (← readFixed 20)

/-- A list whose items `fields` reads. They are read from all of the input; that
they end where the list ends is checked afterwards. -/
def readList (fields : Reader α) : Reader α := do
  let h ← readHead
  if !h.isList then throw .unexpectedString
  let before ← get
  let value ← fields
  let after ← get
  let got := before.length - after.length
  if got ≠ h.length then throw (.listLength got h.length)
  return value

end StakeGov.Rlp
