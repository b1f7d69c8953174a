/-
# GradualScript.Text.Layout -- structured data as text

What the debugging views of values, types and typed scripts have in common: records with named
fields, tuples with a name, and lists. A layout is written on one line (`compact`) or with one
item a line (`expanded`). Both forms show the same items in the same order.
-/

import GradualScript.Text.Quoted

namespace GradualScript.Text

/-- Structured data to be written. -/
inductive Layout where
  | text (text : String)
  | record (name : String) (fields : List (String × Layout))
  | tuple (name : String) (items : List Layout)
  | list (items : List Layout)

namespace Layout

instance : Inhabited Layout := ⟨.list []⟩

/-- A string in quotes. -/
def string (s : String) : Layout := .text (quoted s)

def number (n : Nat) : Layout := .text (toString n)

def boolean (b : Bool) : Layout := .text (if b then "true" else "false")

/-- Something that may be missing. -/
def option : Option Layout → Layout
  | none => .text "None"
  | some item => .tuple "Some" [item]

/-! ## On one line -/

mutual

/-- The layout on one line, its items separated by commas. -/
def compact : Layout → String
  | text s => s
  | record name fields => name ++ " \x7b " ++ compactFields fields ++ " \x7d"
  | tuple name items => name ++ "(" ++ compactItems items ++ ")"
  | list items => "[" ++ compactItems items ++ "]"

def compactItems : List Layout → String
  | [] => ""
  | [item] => compact item
  | item :: items => compact item ++ ", " ++ compactItems items

def compactFields : List (String × Layout) → String
  | [] => ""
  | [(name, item)] => name ++ ": " ++ compact item
  | (name, item) :: fields => name ++ ": " ++ compact item ++ ", " ++ compactFields fields

end

/-! ## With one item a line -/

/-- The blanks before a line. -/
def indentation (depth : Nat) : String := String.ofList (List.replicate (4 * depth) ' ')

mutual

/-- The layout with each item on a line of its own, inside `depth` others. A comma follows every
item. A list without items stays on its line. -/
def expanded (depth : Nat) : Layout → String
  | text s => s
  | record name fields =>
    name ++ " \x7b\n" ++ expandedFields (depth + 1) fields ++ indentation depth ++ "\x7d"
  | tuple name items =>
    name ++ "(\n" ++ expandedItems (depth + 1) items ++ indentation depth ++ ")"
  | list [] => "[]"
  | list items => "[\n" ++ expandedItems (depth + 1) items ++ indentation depth ++ "]"

def expandedItems (depth : Nat) : List Layout → String
  | [] => ""
  | item :: items =>
    indentation depth ++ expanded depth item ++ ",\n" ++ expandedItems depth items

def expandedFields (depth : Nat) : List (String × Layout) → String
  | [] => ""
  | (name, item) :: fields =>
    indentation depth ++ name ++ ": " ++ expanded depth item ++ ",\n"
      ++ expandedFields depth fields

end

end Layout

end GradualScript.Text
