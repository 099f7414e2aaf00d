import StakeGov.Toml.Basic

/-!
# Configuration text: characters, keys and strings

A scan takes something off the front of the text or fails and leaves the text as
it was. A loop makes at most as many turns as there are characters; each turn
takes at least one.
-/

namespace StakeGov.Toml

abbrev Scan := StateT (List Char) Option

namespace Scan

variable {α : Type}

def one (p : Char → Bool) : Scan Char := fun
  | c :: rest => if p c then some (c, rest) else none
  | [] => none

def char (c : Char) : Scan Unit := do
  let _ ← one (· = c)

def word : List Char → Scan Unit
  | [] => return ()
  | c :: cs => do
    char c
    word cs

def longest (p : Char → Bool) : Scan (List Char) :=
  fun input => some (input.takeWhile p, input.dropWhile p)

def upTo (item : Scan α) : Nat → Scan (List α)
  | 0 => return []
  | n + 1 => (do
      let x ← item
      let xs ← upTo item n
      return x :: xs) <|> return []

def many (item : Scan α) : Scan (List α) := do
  upTo item (← get).length

/-- Succeeds if the next character is not of the class. -/
def notNext (p : Char → Bool) : Scan Unit := fun input =>
  if (input.head?.map p).getD false then none else some ((), input)

def ending : Scan Unit := fun input =>
  if input = [] then some ((), []) else none

end Scan

open Scan

-- ---------------------------------------------------------------------------
-- Blanks, comments and line ends
-- ---------------------------------------------------------------------------

def isBlank (c : Char) : Bool := c = ' ' || c = '\t'

/-- A printing character, a tab, or anything that is not ASCII. -/
def isPlain (c : Char) : Bool :=
  c = '\t' || (' ' ≤ c && c ≤ '~') || '\x80' ≤ c

def isDigit (c : Char) : Bool := '0' ≤ c && c ≤ '9'

def blanks : Scan Unit := do
  let _ ← longest isBlank

def newline : Scan Unit :=
  char '\n' <|> word ['\r', '\n']

def comment : Scan Unit := do
  char '#'
  let _ ← longest isPlain

def lineEnd : Scan Unit := do
  blanks
  let _ ← optional comment
  newline <|> ending

def gap : Scan Unit := do
  let _ ← many ((do let _ ← one isBlank) <|> newline <|> (do comment; newline))

-- ---------------------------------------------------------------------------
-- Strings
-- ---------------------------------------------------------------------------

def hexDigitValue? (c : Char) : Option Nat :=
  if isDigit c then some (c.toNat - 48)
  else if 'a' ≤ c && c ≤ 'f' then some (c.toNat - 87)
  else if 'A' ≤ c && c ≤ 'F' then some (c.toNat - 55)
  else none

def hexDigit : Scan Nat := do
  let c ← one fun c => (hexDigitValue? c).isSome
  hexDigitValue? c

def hexNumber : Nat → Nat → Scan Nat
  | 0, v => return v
  | n + 1, v => do hexNumber n (16 * v + (← hexDigit))

/-- A character by its number, which must not be half of a pair. -/
def charOfNumber? (n : Nat) : Option Char :=
  if h : n.isValidChar then some (Char.ofNatAux n h) else none

def escaped : Scan Char := do
  match ← one fun _ => true with
  | 'b' => return '\x08'
  | 'f' => return '\x0c'
  | 'n' => return '\n'
  | 'r' => return '\r'
  | 't' => return '\t'
  | '"' => return '"'
  | '\\' => return '\\'
  | 'u' => charOfNumber? (← hexNumber 4 0)
  | 'U' => charOfNumber? (← hexNumber 8 0)
  | _ => failure

def basicPiece : Scan Char :=
  one (fun c => isPlain c && c ≠ '"' && c ≠ '\\') <|> (do char '\\'; escaped)

def basicString : Scan String := do
  char '"'
  let cs ← many basicPiece
  char '"'
  return String.ofList cs

def literalString : Scan String := do
  char '\''
  let cs ← longest fun c => isPlain c && c ≠ '\''
  char '\''
  return String.ofList cs

/-- One or two quotes that do not end a string of several lines. -/
def innerQuotes (q : Char) : Scan (List Char) :=
  (do word [q, q]; notNext (· = q); return [q, q]) <|>
    (do char q; notNext (· = q); return [q])

/-- The three quotes that end a string of several lines, and up to two more before
them that belong to it. -/
def closingQuotes (q : Char) : Scan (List Char) :=
  (do word [q, q, q, q, q]; return [q, q]) <|> (do word [q, q, q, q]; return [q]) <|>
    (do word [q, q, q]; return [])

def joinedLines : Scan (List Char) := do
  char '\\'
  blanks
  newline
  let _ ← many ((do let _ ← one isBlank) <|> newline)
  return []

def lineBreak : Scan (List Char) := do
  newline
  return ['\n']

/-- A string of several lines, given the quote and the pieces it is made of. A line
end right after the opening quotes does not belong to it. -/
def longString (q : Char) (piece : Scan (List Char)) : Scan String := do
  word [q, q, q]
  let _ ← optional newline
  let pieces ← many (piece <|> lineBreak <|> innerQuotes q)
  let last ← closingQuotes q
  return String.ofList (pieces.flatten ++ last)

def longBasicString : Scan String :=
  longString '"' (joinedLines <|> (do return [← basicPiece]))

def longLiteralString : Scan String :=
  longString '\'' (do return [← one fun c => isPlain c && c ≠ '\''])

def string : Scan String :=
  longBasicString <|> basicString <|> longLiteralString <|> literalString

-- ---------------------------------------------------------------------------
-- Keys
-- ---------------------------------------------------------------------------

def isBare (c : Char) : Bool :=
  isDigit c || ('a' ≤ c && c ≤ 'z') || ('A' ≤ c && c ≤ 'Z') || c = '-' || c = '_'

def bareKey : Scan String := do
  let c ← one isBare
  return String.ofList (c :: (← longest isBare))

def simpleKey : Scan String := do
  blanks
  let key ← basicString <|> literalString <|> bareKey
  blanks
  return key

def dottedKey : Scan (Path × String) := do
  let first ← simpleKey
  let rest ← many (do char '.'; simpleKey)
  let keys := first :: rest
  guard (keys.length < depthBound)
  return (keys.dropLast, keys.getLastD first)

end StakeGov.Toml
