/-
# GradualScript.Json.Writer -- writing JSON text

Documents are written without any blanks (`compact`) or with one item a line (`pretty`). In strings
only the quote, the backslash and control characters are escaped. An unreadable value is written
as `null`.
-/

import GradualScript.Json.Value

namespace GradualScript.Json

/-- The character after the backslash, for characters with a short escape. -/
def escapeLetter? : Char → Option Char
  | '"' => some '"'
  | '\\' => some '\\'
  | '\x08' => some 'b'
  | '\x0c' => some 'f'
  | '\n' => some 'n'
  | '\r' => some 'r'
  | '\t' => some 't'
  | _ => none

/-- A control character by its four hexadecimal digits. -/
def controlEscape (c : Char) : List Char :=
  ['\\', 'u', '0', '0', Nat.digitChar (c.toNat / 16), Nat.digitChar (c.toNat % 16)]

/-- A character inside a string. -/
def escapedChar (c : Char) : List Char :=
  match escapeLetter? c with
  | some letter => ['\\', letter]
  | none => if c.toNat < 0x20 then controlEscape c else [c]

/-- A string in quotes. -/
def stringText (s : String) : String :=
  String.ofList ('"' :: (s.toList.flatMap escapedChar ++ ['"']))

/-- A number as it was written. -/
def Number.text (n : Number) : String :=
  let sign := if n.negative then "-" else ""
  let places := if n.places.isEmpty then "" else "." ++ String.join (n.places.map toString)
  let exponent := match n.exponent with
    | none => ""
    | some e => "e" ++ toString e
  sign ++ toString n.whole ++ places ++ exponent

/-! ## Without blanks -/

mutual

def compact : Json → String
  | null | unreadable => "null"
  | boolean b => if b then "true" else "false"
  | number n => n.text
  | string s => stringText s
  | array [] => "[]"
  | array (item :: items) => "[" ++ compact item ++ compactItems items ++ "]"
  | object [] => "\x7b\x7d"
  | object ((name, v) :: members) =>
    "\x7b" ++ stringText name ++ ":" ++ compact v ++ compactMembers members ++ "\x7d"

/-- The items of an array after the first. -/
def compactItems : List Json → String
  | [] => ""
  | item :: items => "," ++ compact item ++ compactItems items

/-- The members of an object after the first. -/
def compactMembers : List (String × Json) → String
  | [] => ""
  | (name, v) :: members =>
    "," ++ stringText name ++ ":" ++ compact v ++ compactMembers members

end

/-! ## With one item a line -/

/-- The beginning of a line inside `depth` arrays and objects. -/
def newLine (depth : Nat) : String := "\n" ++ String.ofList (List.replicate (2 * depth) ' ')

mutual

/-- The document with one item a line, itself inside `depth` arrays and objects. -/
def pretty (depth : Nat) : Json → String
  | null | unreadable => "null"
  | boolean b => if b then "true" else "false"
  | number n => n.text
  | string s => stringText s
  | array [] => "[]"
  | array (item :: items) =>
    "[" ++ newLine (depth + 1) ++ pretty (depth + 1) item ++ prettyItems (depth + 1) items
      ++ newLine depth ++ "]"
  | object [] => "\x7b\x7d"
  | object ((name, v) :: members) =>
    "\x7b" ++ newLine (depth + 1) ++ stringText name ++ ": " ++ pretty (depth + 1) v
      ++ prettyMembers (depth + 1) members ++ newLine depth ++ "\x7d"

def prettyItems (depth : Nat) : List Json → String
  | [] => ""
  | item :: items => "," ++ newLine depth ++ pretty depth item ++ prettyItems depth items

def prettyMembers (depth : Nat) : List (String × Json) → String
  | [] => ""
  | (name, v) :: members =>
    "," ++ newLine depth ++ stringText name ++ ": " ++ pretty depth v
      ++ prettyMembers depth members

end

end GradualScript.Json
