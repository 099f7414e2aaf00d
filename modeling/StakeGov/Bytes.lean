/-!
# Byte strings

A byte string is a list of bytes, read as a number most significant byte first.
-/

namespace StakeGov

abbrev Bytes := List UInt8

namespace Bytes

def toNat : Bytes → Nat
  | [] => 0
  | b :: bs => b.toNat <<< (8 * bs.length) + toNat bs

/-- The lowest `n` bytes of a number. -/
def bigEndian : Nat → Nat → Bytes
  | 0, _ => []
  | n + 1, v => UInt8.ofNat (v >>> (8 * n)) :: bigEndian n v

/-- How many bytes a number needs; zero needs none. -/
def width (v : Nat) : Nat :=
  if v = 0 then 0 else v.log2 / 8 + 1

def shortest (v : Nat) : Bytes :=
  bigEndian (width v) v

def zeros (n : Nat) : Bytes :=
  List.replicate n 0

-- ---------------------------------------------------------------------------
-- Text
-- ---------------------------------------------------------------------------

def hexDigit (n : Nat) : Char :=
  if n < 10 then Char.ofNat (48 + n) else Char.ofNat (87 + n)

def hexDigits (bs : Bytes) : List Char :=
  bs.flatMap fun b => [hexDigit (b.toNat / 16), hexDigit (b.toNat % 16)]

def hex (bs : Bytes) : String :=
  String.ofList (hexDigits bs)

def hexValue? (c : Char) : Option Nat :=
  if '0' ≤ c ∧ c ≤ '9' then some (c.toNat - 48)
  else if 'a' ≤ c ∧ c ≤ 'f' then some (c.toNat - 87)
  else if 'A' ≤ c ∧ c ≤ 'F' then some (c.toNat - 55)
  else none

def ofHexDigits? : List Char → Option Bytes
  | [] => some []
  | [_] => none
  | c :: d :: rest => do
    let high ← hexValue? c
    let low ← hexValue? d
    let bs ← ofHexDigits? rest
    return UInt8.ofNat (high * 16 + low) :: bs

def ofText (s : String) : Bytes :=
  s.toByteArray.data.toList

def text? (bs : Bytes) : Option String :=
  String.fromUTF8? ⟨bs.toArray⟩

theorem text?_ofText (s : String) : text? (ofText s) = some s := by
  simp [text?, ofText, String.fromUTF8?, String.fromUTF8, s.isValidUTF8]

theorem ofText_of_text? {bs : Bytes} {s : String} (h : text? bs = some s) : ofText s = bs := by
  simp only [text?, String.fromUTF8?] at h
  split at h
  · simp only [Option.some.injEq] at h
    subst h
    simp [ofText, String.fromUTF8]
  · simp at h

-- ---------------------------------------------------------------------------
-- Numbers
-- ---------------------------------------------------------------------------

@[simp] theorem length_bigEndian (n v : Nat) : (bigEndian n v).length = n := by
  induction n with
  | zero => rfl
  | succ n ih => simp [bigEndian, ih]

@[simp] theorem length_zeros (n : Nat) : (zeros n).length = n := by simp [zeros]

end Bytes

end StakeGov
