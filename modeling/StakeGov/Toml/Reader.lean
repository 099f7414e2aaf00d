import StakeGov.Toml.Document
import StakeGov.Toml.Scalar

/-!
# Configuration text: reading

Values, statements and whole texts.
-/

namespace StakeGov.Toml

open Scan

/-- Values between brackets. A comma may follow the last of them. -/
def array (item : Scan Value) : Scan Value := do
  char '['
  let padded : Scan Value := do
    gap
    let v ← item
    gap
    return v
  let items ← (do
      let first ← padded
      let rest ← many (do char ','; padded)
      let _ ← optional (char ',')
      return first :: rest) <|> return []
  gap
  char ']'
  return .array items

def assignment (item : Scan Value) : Scan (Path × String × Value) := do
  let (path, key) ← dottedKey
  char '='
  blanks
  return (path, key, ← item)

/-- Assignments between braces, on one line and without a comma after the last. -/
def braces (item : Scan Value) : Scan Value := do
  char '\x7b'
  let padded : Scan (Path × String × Value) := do
    let a ← assignment item
    blanks
    return a
  let assignments ← (do
      let first ← padded
      let rest ← many (do char ','; padded)
      return first :: rest) <|> return []
  blanks
  char '\x7d'
  inlineTable assignments

/-- A value with less than the given number of values around each other in it. -/
def value : Nat → Scan Value
  | 0 => scalar
  | 1 => scalar
  | depth + 2 => scalar <|> array (value (depth + 1)) <|> braces (value (depth + 1))

def header : Scan (Path × String) := do
  char '['
  let key ← dottedKey
  char ']'
  return key

def line : Scan (Option Statement) := do
  blanks
  let statement ← optional <|
    (do
      char '['
      let (path, key) ← header
      char ']'
      return Statement.listTable path key) <|>
    (do
      let (path, key) ← header
      return Statement.table path key) <|>
    (do
      let (path, key, v) ← assignment (value depthBound)
      return Statement.assign path key v)
  lineEnd
  return statement

/-- Lines up to the end of the text; a line takes at least one character. -/
def lines : Nat → Scan (List (Option Statement))
  | 0 => do
    ending
    return []
  | n + 1 => (do ending; return []) <|> (do
      let first ← line
      let rest ← lines n
      return first :: rest)

/-- The table a text stands for. A mark of the byte order may come first. -/
def parse (text : String) : Option Value := do
  let input := match text.toList with
    | '\ufeff' :: rest => rest
    | all => all
  let (statements, _) ← (lines input.length).run input
  build (statements.filterMap id)

end StakeGov.Toml
