/-
# GradualScript.Toml.Table -- how a document puts its tables together

The lines of a document open tables and give entries to the table that was opened last. A table may
be opened once. What a dotted key or the header of a table inside it made of it before matters: a
table that a header implied may still be opened, one that dotted keys made may not, and only tables
that were not opened can be extended by dotted keys.
-/

import GradualScript.Toml.Value

namespace GradualScript.Toml

/-- How a table came to be. -/
inductive Form where
  /-- It was opened by a header of its own, or is the whole document. -/
  | opened
  /-- A header of a table inside it implied it. -/
  | implied
  /-- A dotted key made it. -/
  | dotted
deriving DecidableEq, Repr

/-- What a name stands for while a document is read. -/
inductive Node where
  | value (v : Value)
  | table (form : Form) (entries : List (String × Node))
  /-- The tables of an array of tables, the last one first. -/
  | tables (latest : List (List (String × Node)))

/-- The inside of a table while a document is read. -/
abbrev Entries := List (String × Node)

namespace Entries

/-- The entries with another node under a name that they have. -/
def replace (entries : Entries) (name : String) (node : Node) : Entries :=
  entries.map fun e => if e.1 = name then (e.1, node) else e

/-- Adds an entry under a new name. -/
def add (entries : Entries) (name : String) (node : Node) : Option Entries :=
  if entries.any fun e => e.1 == name then none else some (entries ++ [(name, node)])

/-- Changes the table that `path` leads to, making the tables on the way that are missing. Of an
array of tables the last one is meant. `dotted` tells whether the path is that of a dotted key. -/
def within (dotted : Bool) (change : Form → Entries → Option Entries) :
    (path : List String) → Form → Entries → Option Entries
  | [], form, entries => change form entries
  | name :: path, _, entries =>
    match entries.lookup name with
    | none => do
      let form := if dotted then Form.dotted else .implied
      return entries ++ [(name, .table form (← within dotted change path form []))]
    | some (.value _) => none
    | some (.table form inner) =>
      if dotted && form == .opened then none
      else do
        return replace entries name (.table form (← within dotted change path form inner))
    | some (.tables (last :: others)) => do
      return replace entries name (.tables ((← within dotted change path .opened last) :: others))
    | some (.tables []) => none

/-- Gives a table the value of a key. Between two points of the key there have to be tables that
dotted keys made. -/
def give (path : List String) (name : String) (v : Value) (form : Form) (entries : Entries) :
    Option Entries :=
  within true (fun form entries =>
    if !path.isEmpty && form != .dotted then none else entries.add name (.value v))
    path form entries

/-- Opens the table `name`. -/
def openTable (name : String) (_ : Form) (entries : Entries) : Option Entries :=
  match entries.lookup name with
  | none => entries.add name (.table .opened [])
  | some (.table .implied inner) => some (replace entries name (.table .opened inner))
  | some _ => none

/-- Adds a table to the array of tables `name`. -/
def addTable (name : String) (_ : Form) (entries : Entries) : Option Entries :=
  match entries.lookup name with
  | none => entries.add name (.tables [[]])
  | some (.tables tables) => some (replace entries name (.tables ([] :: tables)))
  | some _ => none

end Entries

mutual

/-- The value that a name stands for when the document has been read. -/
def Node.close : Node → Value
  | .value v => v
  | .table _ entries => .table (closeEntries entries)
  | .tables latest => .array (closeTables latest).reverse

def Node.closeEntries : List (String × Node) → Table
  | [] => []
  | (name, node) :: rest => (name, Node.close node) :: Node.closeEntries rest

def Node.closeTables : List (List (String × Node)) → List Value
  | [] => []
  | entries :: rest => .table (Node.closeEntries entries) :: Node.closeTables rest

end

/-! ## Lines -/

/-- What a line of a document says. Keys are given as the parts before the last, and the last. -/
inductive Line where
  | header (path : List String) (name : String)
  | arrayHeader (path : List String) (name : String)
  | entry (path : List String) (name : String) (value : Value)

/-- A document as far as it has been read: its entries, and the path to the open table. -/
structure Draft where
  entries : Entries := []
  current : List String := []

/-- Takes in a line, unless it contradicts the lines before. -/
def Draft.add (d : Draft) : Line → Option Draft
  | .header path name => do
    return ⟨← Entries.within false (Entries.openTable name) path .opened d.entries, path ++ [name]⟩
  | .arrayHeader path name => do
    return ⟨← Entries.within false (Entries.addTable name) path .opened d.entries, path ++ [name]⟩
  | .entry path name v => do
    return { d with
      entries := ← Entries.within false (Entries.give path name v) d.current .opened d.entries }

/-- The table of a document with these lines. -/
def ofLines? (lines : List Line) : Option Table := do
  let d ← lines.foldlM Draft.add {}
  return Node.closeEntries d.entries

/-- The table of the entries of an inline table. -/
def ofInline? (entries : List (List String × String × Value)) : Option Table := do
  let es ← entries.foldlM (fun es (path, name, v) => Entries.give path name v .opened es) []
  return Node.closeEntries es

end GradualScript.Toml
