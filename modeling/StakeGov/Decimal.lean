/-!
# Decimal numbers

A number written in decimal is kept exactly: its digits as one natural number and
a power of ten. Its value as a 64-bit float is the nearest float, and of two that
are equally near the one with the even last bit.
-/

namespace StakeGov

/-- A coefficient times a power of ten, with a sign. Zero has two signs. -/
structure Decimal where
  negative : Bool
  coefficient : Nat
  exponent : Int
deriving DecidableEq, Repr

namespace Decimal

def digitsValue (base : Nat) (digits : List Nat) : Nat :=
  digits.foldl (fun v d => base * v + d) 0

def ofDigits (digits : List Char) : Nat :=
  digitsValue 10 (digits.map fun c => c.toNat - 48)

-- ---------------------------------------------------------------------------
-- Floats
-- ---------------------------------------------------------------------------

/-- The power of ten of the first digit, counted from just above it. -/
def scale (d : Decimal) : Int :=
  (Nat.toDigits 10 d.coefficient).length + d.exponent

/-- Whether the size of a number is beyond every float, that is at least half a step
above the greatest of them. -/
def overflows (d : Decimal) : Bool :=
  if d.coefficient = 0 then false
  else if d.scale > 400 then true
  else if d.scale < 300 then false
  else
    let bound : Nat := (1 <<< 1024) - (1 <<< 970)
    bound * Nat.pow 10 (-d.exponent).toNat ≤ d.coefficient * Nat.pow 10 d.exponent.toNat

def vanishes (d : Decimal) : Bool :=
  d.coefficient = 0 || d.scale < -400

/-- The nearest float to the number without its sign. -/
def magnitude (d : Decimal) : Float :=
  if d.overflows then 1.0 / 0.0
  else if d.vanishes then 0.0
  else match d.exponent with
    | .ofNat e => Float.ofScientific d.coefficient false e
    | .negSucc e => Float.ofScientific d.coefficient true (e + 1)

def nearestFloat (d : Decimal) : Float :=
  if d.negative then -d.magnitude else d.magnitude

-- ---------------------------------------------------------------------------
-- Text
-- ---------------------------------------------------------------------------

def splitSign : List Char → Bool × List Char
  | '-' :: rest => (true, rest)
  | '+' :: rest => (false, rest)
  | rest => (false, rest)

def splitFraction : List Char → List Char × List Char
  | '.' :: rest => (rest.takeWhile Char.isDigit, rest.dropWhile Char.isDigit)
  | rest => ([], rest)

/-- The power of ten at the end of a number: nothing, or the letter, perhaps a sign,
and at least one digit. -/
def ending? : List Char → Option Int
  | [] => some 0
  | c :: rest => do
    guard (c = 'e' ∨ c = 'E')
    let (negative, digits) := splitSign rest
    guard (digits ≠ [] ∧ digits.all Char.isDigit)
    let v : Nat := ofDigits digits
    return if negative then -v else v

/-- Digits with or without a point; the point may come first or last. Zeros may stand
in front. -/
def ofUnsigned? (negative : Bool) (text : List Char) : Option Decimal := do
  let whole := text.takeWhile Char.isDigit
  let (fraction, rest) := splitFraction (text.dropWhile Char.isDigit)
  guard (whole ++ fraction ≠ [])
  let e ← ending? rest
  return ⟨negative, ofDigits (whole ++ fraction), e - fraction.length⟩

def ofText? (text : String) : Option Decimal :=
  let (negative, rest) := splitSign text.toList
  ofUnsigned? negative rest

def namedFloat? : String → Option Float
  | "inf" | "infinity" => some (1.0 / 0.0)
  | "nan" => some (0.0 / 0.0)
  | _ => none

def floatOfText? (text : String) : Option Float :=
  (ofText? text).map nearestFloat <|> do
    let (negative, rest) := splitSign text.toList
    let v ← namedFloat? (String.ofList (rest.map Char.toLower))
    return if negative then -v else v

end Decimal

end StakeGov
