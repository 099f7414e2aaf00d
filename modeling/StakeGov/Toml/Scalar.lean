import StakeGov.Decimal
import StakeGov.Toml.Scan

/-!
# Configuration text: numbers and moments in time

Integers have 64 bits with a sign. Single underscores may stand between digits.
-/

namespace StakeGov.Toml

open Scan

def digit : Scan Char := one isDigit

/-- Digits after the first, each of them with or without an underscore before it. -/
def moreDigits (digit : Scan α) : Scan (List α) :=
  many (digit <|> (do char '_'; digit))

-- ---------------------------------------------------------------------------
-- Integers
-- ---------------------------------------------------------------------------

def sign : Scan Bool :=
  (do char '-'; return true) <|> (do char '+'; return false) <|> return false

/-- Digits of which the first is not zero, or a single digit. -/
def decimalDigits : Scan (List Char) :=
  (do
    let c ← one fun c => '1' ≤ c && c ≤ '9'
    return c :: (← moreDigits digit)) <|>
  (do return [← digit])

def inRange (v : Int) : Scan Value := do
  guard (Int64.minValue.toInt ≤ v ∧ v ≤ Int64.maxValue.toInt)
  return .integer v

def decimalInteger : Scan Value := do
  let negative ← sign
  let v : Nat := Decimal.ofDigits (← decimalDigits)
  inRange (if negative then -v else v)

/-- An integer in another base, after the letter that names it. -/
def basedInteger (letter : Char) (base : Nat) : Scan Value := do
  word ['0', letter]
  let digit : Scan Nat := do
    let d ← hexDigit
    guard (d < base)
    return d
  let first ← digit
  let v : Nat := Decimal.digitsValue base (first :: (← moreDigits digit))
  inRange v

def integer : Scan Value :=
  basedInteger 'x' 16 <|> basedInteger 'o' 8 <|> basedInteger 'b' 2 <|> decimalInteger

-- ---------------------------------------------------------------------------
-- Floats
-- ---------------------------------------------------------------------------

def digitsWithZeros : Scan (List Char) := do
  let c ← digit
  return c :: (← moreDigits digit)

def exponent : Scan Int := do
  char 'e' <|> char 'E'
  let negative ← sign
  let v : Nat := Decimal.ofDigits (← digitsWithZeros)
  return if negative then -v else v

/-- A number with a fraction, an exponent, or both. A positive one must be finite. -/
def decimalFloat : Scan Value := do
  let negative ← sign
  let whole ← decimalDigits
  let fraction ← optional (do char '.'; digitsWithZeros)
  let e ← optional exponent
  guard (fraction.isSome ∨ e.isSome)
  let digits := whole ++ fraction.getD []
  let d : Decimal :=
    ⟨negative, Decimal.ofDigits digits, e.getD 0 - (fraction.getD []).length⟩
  guard (negative ∨ !d.overflows)
  return .float

def namedFloat : Scan Value := do
  let _ ← sign
  word ['i', 'n', 'f'] <|> word ['n', 'a', 'n']
  return .float

-- ---------------------------------------------------------------------------
-- Moments
-- ---------------------------------------------------------------------------

def fixedDigits : Nat → Nat → Scan Nat
  | 0, v => return v
  | n + 1, v => do fixedDigits n (10 * v + ((← digit).toNat - 48))

def between (low high : Nat) (n : Scan Nat) : Scan Nat := do
  let v ← n
  guard (low ≤ v ∧ v ≤ high)
  return v

def isLeapYear (year : Nat) : Bool :=
  year % 4 = 0 && (year % 100 ≠ 0 || year % 400 = 0)

def daysInMonth (year month : Nat) : Nat :=
  if month = 2 then if isLeapYear year then 29 else 28
  else if month = 4 ∨ month = 6 ∨ month = 9 ∨ month = 11 then 30
  else 31

def date : Scan Unit := do
  let year ← fixedDigits 4 0
  char '-'
  let month ← between 1 12 (fixedDigits 2 0)
  char '-'
  let _ ← between 1 (daysInMonth year month) (fixedDigits 2 0)

def hour : Scan Nat := between 0 23 (fixedDigits 2 0)

def minute : Scan Nat := between 0 59 (fixedDigits 2 0)

/-- A leap second is a second. -/
def second : Scan Nat := between 0 60 (fixedDigits 2 0)

def time : Scan Unit := do
  let _ ← hour
  char ':'
  let _ ← minute
  char ':'
  let _ ← second
  let _ ← optional (do char '.'; let _ ← digit; longest isDigit)

def timeOffset : Scan Unit :=
  char 'Z' <|> char 'z' <|> (do
    char '+' <|> char '-'
    let _ ← hour
    char ':'
    let _ ← minute)

def moment : Scan Value :=
  (do
    date
    let _ ← optional (do
      char 'T' <|> char 't' <|> char ' '
      time
      let _ ← optional timeOffset)
    return .moment) <|>
  (do time; return .moment)

-- ---------------------------------------------------------------------------
-- Scalars
-- ---------------------------------------------------------------------------

def boolean : Scan Value :=
  (do word ['t', 'r', 'u', 'e']; return .boolean true) <|>
    (do word ['f', 'a', 'l', 's', 'e']; return .boolean false)

def scalar : Scan Value :=
  (do return .string (← string)) <|> moment <|> decimalFloat <|> namedFloat <|> integer <|>
    boolean

end StakeGov.Toml
