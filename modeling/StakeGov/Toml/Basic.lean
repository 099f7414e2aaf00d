/-!
# Configuration text: values and statements

A text is a list of statements: assignments, and headers that say to which table
the assignments after them belong. Of numbers with a fraction and of moments in
time only the fact is kept that they are there; no setting has such a value.
-/

namespace StakeGov.Toml

inductive Value where
  | integer (v : Int)
  | float
  | boolean (b : Bool)
  | string (s : String)
  /-- A date, a time, or both. -/
  | moment
  | array (items : List Value)
  | table (entries : List (String × Value))

abbrev Path := List String

inductive Statement where
  | assign (path : Path) (key : String) (value : Value)
  /-- The assignments that follow belong to this table. -/
  | table (path : Path) (key : String)
  /-- The assignments that follow belong to a new table at the end of this list. -/
  | listTable (path : Path) (key : String)

/-- The number of keys in a path, and the number of values inside each other, are
below this bound. -/
def depthBound : Nat := 80

end StakeGov.Toml
