import StakeGov.Toml.Basic

/-!
# Configuration text: what the statements build

The statements fill a table. A table is opened by one header, by a header of a
table inside it, or by dotted keys; opening it twice, or in two of these ways
where that could mean two things, is an error, and so is assigning a key twice.
-/

namespace StakeGov.Toml

inductive Opened where
  | header
  /-- By the header of a table inside it. -/
  | within
  /-- By dotted keys. -/
  | dotted
deriving DecidableEq, Repr

/-- What stands under a key while the text is read. -/
inductive Node where
  | value (v : Value)
  | table (opened : Opened) (entries : List (String × Node))
  /-- A list of tables, the latest first. -/
  | list (tables : List (List (String × Node)))

abbrev Entries := List (String × Node)

namespace Entries

def find? (key : String) : Entries → Option Node
  | [] => none
  | (k, n) :: rest => if k = key then some n else find? key rest

/-- Sets the node under a key, at the end if the key is new. -/
def set (key : String) (node : Node) : Entries → Entries
  | [] => [(key, node)]
  | (k, n) :: rest => if k = key then (k, node) :: rest else (k, n) :: set key node rest

/-- Changes the table at the end of a path and opens the tables on the way that are
not there. In a list the way leads through its latest table. Dotted keys do not
lead through a table with a header of its own. -/
def change (byDots : Bool) (f : Opened → Entries → Option Entries) :
    Path → Opened → Entries → Option Entries
  | [], opened, entries => f opened entries
  | key :: path, _, entries =>
    match find? key entries with
    | none => do
      let opened : Opened := if byDots then .dotted else .within
      let inner ← change byDots f path opened []
      return set key (.table opened inner) entries
    | some (.table opened inner) =>
      if byDots ∧ opened = .header then none
      else do
        let inner ← change byDots f path opened inner
        return set key (.table opened inner) entries
    | some (.list (latest :: earlier)) => do
      let latest ← change byDots f path .header latest
      return set key (.list (latest :: earlier)) entries
    | some (.list []) | some (.value _) => none

def assign (path : Path) (key : String) (v : Value) (entries : Entries) : Option Entries :=
  change true
    (fun opened inner =>
      if path ≠ [] ∧ opened ≠ .dotted then none
      else if (find? key inner).isSome then none
      else some (set key (.value v) inner))
    path .header entries

def openTable (path : Path) (key : String) (entries : Entries) : Option Entries :=
  change false
    (fun _ outer =>
      match find? key outer with
      | none => some (set key (.table .header []) outer)
      | some (.table .within inner) => some (set key (.table .header inner) outer)
      | some _ => none)
    path .header entries

def openListTable (path : Path) (key : String) (entries : Entries) : Option Entries :=
  change false
    (fun _ outer =>
      match find? key outer with
      | none => some (set key (.list [[]]) outer)
      | some (.list tables) => some (set key (.list ([] :: tables)) outer)
      | some _ => none)
    path .header entries

end Entries

/-- A text that is being read: everything so far, and the table that assignments
belong to. -/
structure Draft where
  entries : Entries := []
  current : Path := []

namespace Draft

def step (d : Draft) : Statement → Option Draft
  | .assign path key v => do
    let entries ← Entries.change false (fun _ inner => Entries.assign path key v inner)
      d.current .header d.entries
    return { d with entries }
  | .table path key => do
    return ⟨← Entries.openTable path key d.entries, path ++ [key]⟩
  | .listTable path key => do
    return ⟨← Entries.openListTable path key d.entries, path ++ [key]⟩

end Draft

-- ---------------------------------------------------------------------------
-- Finished values
-- ---------------------------------------------------------------------------

mutual

def Node.toValue : Node → Value
  | .value v => v
  | .table _ entries => .table (valuesOf entries)
  | .list tables => .array (tablesOf tables).reverse

def valuesOf : List (String × Node) → List (String × Value)
  | [] => []
  | (key, node) :: rest => (key, node.toValue) :: valuesOf rest

def tablesOf : List (List (String × Node)) → List Value
  | [] => []
  | entries :: rest => .table (valuesOf entries) :: tablesOf rest

end

def build (statements : List Statement) : Option Value := do
  let draft ← statements.foldlM Draft.step {}
  return .table (valuesOf draft.entries)

def inlineTable (assignments : List (Path × String × Value)) : Option Value := do
  let entries ← assignments.foldlM (fun entries a => Entries.assign a.1 a.2.1 a.2.2 entries) []
  return .table (valuesOf entries)

end StakeGov.Toml
