/-
# GradualScript.Toml.Reader -- reading settings documents

A document is read line by line, except that arrays and long strings go over several lines. What
the lines say together is for `Toml.ofLines?` to find out.
-/

import GradualScript.Toml.Number
import GradualScript.Toml.Table

namespace GradualScript.Toml

open GradualScript.Text (Reader after?)

/-- The text without blanks, newlines and comments at its beginning. -/
def skipAll (cs : List Char) : List Char := skipLines false cs

/-- A date, a time or a number. -/
def dateOrNumber (cs : List Char) : Option (Value × List Char) :=
  match dateTime cs with
  | some found => some found
  | none => number cs

/-- The parts of a key before the last one, and the last one. -/
def splitKey : List String → Option (List String × String)
  | [] => none
  | [name] => some ([], name)
  | part :: parts => (splitKey parts).map fun (path, name) => (part :: path, name)

mutual

/-- A value, nested in at most `nesting` more arrays and tables. Each step uses up a unit of
`fuel`; twice the length of the text is enough. -/
def value (nesting : Nat) : (fuel : Nat) → Reader Value
  | 0, _ => none
  | fuel + 1, cs =>
    match cs with
    | '"' :: _ | '\'' :: _ => (string cs).map fun (s, rest) => (.string s, rest)
    | 't' :: rest => (after? "rue".toList rest).map fun rest => (.boolean true, rest)
    | 'f' :: rest => (after? "alse".toList rest).map fun rest => (.boolean false, rest)
    | '[' :: rest =>
      match nesting with
      | 0 => none
      | nesting + 1 => (items nesting fuel rest).map fun (vs, rest) => (.array vs, rest)
    | '\x7b' :: rest =>
      match nesting with
      | 0 => none
      | nesting + 1 =>
        match skipBlanks rest with
        | '\x7d' :: rest => some (.table [], rest)
        | rest => do
          let (es, rest) ← entries nesting fuel rest
          return (.table (← ofInline? es), rest)
    | _ => dateOrNumber cs

/-- The items of an array, up to its closing bracket. A comma may follow the last one. -/
def items (nesting : Nat) : (fuel : Nat) → Reader (List Value)
  | 0, _ => none
  | fuel + 1, cs =>
    match skipAll cs with
    | ']' :: rest => some ([], rest)
    | cs => do
      let (v, rest) ← value nesting fuel cs
      match skipAll rest with
      | ',' :: rest =>
        let (vs, rest) ← items nesting fuel rest
        return (v :: vs, rest)
      | ']' :: rest => return ([v], rest)
      | _ => none

/-- The entries of an inline table, at least one, up to its closing brace. -/
def entries (nesting : Nat) : (fuel : Nat) → Reader (List (List String × String × Value))
  | 0, _ => none
  | fuel + 1, cs => do
    let (parts, rest) ← key cs
    let (path, name) ← splitKey parts
    let rest ← after? ['='] rest
    let (v, rest) ← value nesting fuel (skipBlanks rest)
    match skipBlanks rest with
    | ',' :: rest =>
      let (es, rest) ← entries nesting fuel rest
      return ((path, name, v) :: es, rest)
    | '\x7d' :: rest => return ([(path, name, v)], rest)
    | _ => none

end

/-! ## Lines -/

/-- The rest of a header, up to its closing brackets. -/
def header (closing : List Char) (cs : List Char) : Option ((List String × String) × List Char) :=
  do
    let (parts, rest) ← key cs
    let parts ← splitKey parts
    return (parts, ← after? closing rest)

/-- A key and its value. -/
def entry (cs : List Char) : Option (Line × List Char) := do
  let (parts, rest) ← key cs
  let (path, name) ← splitKey parts
  let rest ← after? ['='] rest
  let (v, rest) ← value nestingLimit (2 * rest.length + 1) (skipBlanks rest)
  return (.entry path name v, rest)

/-- What a line says, and the text after that in the line and in the lines below. -/
def statement : List Char → Option (Line × List Char)
  | '[' :: '[' :: rest =>
    (header [']', ']'] rest).map fun ((path, name), rest) => (.arrayHeader path name, rest)
  | '[' :: rest => (header [']'] rest).map fun ((path, name), rest) => (.header path name, rest)
  | cs => entry cs

/-- A line that says something. Only blanks and a comment may follow in it. -/
def line (cs : List Char) : Option (Line × List Char) := do
  let (found, rest) ← statement cs
  return (found, ← lineEnd? rest)

/-- The lines of a document that say something. Each line uses up a unit of `fuel`. -/
def lines : (fuel : Nat) → List Char → Option (List Line)
  | 0, _ => none
  | fuel + 1, cs =>
    match skipBlanks cs with
    | [] => some []
    | cs =>
      match newline? (skipComment cs) with
      | some rest => lines fuel rest
      | none =>
        if (skipComment cs).isEmpty then some []
        else do
          let (found, rest) ← line cs
          return found :: (← lines fuel rest)

/-- The text without a byte order mark at its beginning. -/
def skipMark : List Char → List Char
  | '\ufeff' :: cs => cs
  | cs => cs

/-- Reads a document. -/
def ofText? (text : String) : Option Table :=
  let cs := skipMark text.toList
  (lines (cs.length + 1) cs).bind ofLines?

end GradualScript.Toml
