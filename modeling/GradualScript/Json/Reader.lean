/-
# GradualScript.Json.Reader -- reading JSON text

The grammar is the strict one: no comments, no trailing commas, no leading zeros, no control
characters in strings, and only blanks after the document.

Two faults are no faults of grammar, and leave a value unreadable: an escaped surrogate that is not
one half of a pair, and arrays and objects that are nested more deeply than `nestingLimit`.
-/

import GradualScript.Json.Value
import GradualScript.Text.Reader

namespace GradualScript.Json

open Text (Reader after? hexNumber? ofDigits)

/-- How many arrays and objects may be nested in each other to be readable. -/
def nestingLimit : Nat := 127

namespace Reader

def isBlank (c : Char) : Bool := c == ' ' || c == '\t' || c == '\n' || c == '\r'

def skipBlanks (cs : List Char) : List Char := cs.dropWhile isBlank

/-! ## Numbers -/

/-- The digits at the beginning of a text. -/
def digits : List Char → List Nat × List Char
  | [] => ([], [])
  | c :: cs =>
    match Numeral.digit? c with
    | some d =>
      let (ds, rest) := digits cs
      (d :: ds, rest)
    | none => ([], c :: cs)

/-- A whole part: zero, or digits that do not begin with zero. -/
def whole : Reader Nat
  | '0' :: cs => some (0, cs)
  | cs =>
    match digits cs with
    | ([], _) => none
    | (ds, rest) => some (ofDigits ds, rest)

/-- A point and at least one digit, or nothing. -/
def places : Reader (List Nat)
  | '.' :: cs =>
    match digits cs with
    | ([], _) => none
    | (ds, rest) => some (ds, rest)
  | cs => some ([], cs)

/-- The digits of an exponent, at least one. -/
def exponentDigits (negative : Bool) (cs : List Char) : Option (Option Int × List Char) :=
  match digits cs with
  | ([], _) => none
  | (ds, rest) => some (some (if negative then -(ofDigits ds : Int) else ofDigits ds), rest)

/-- An exponent, or nothing. -/
def exponent : Reader (Option Int)
  | 'e' :: '-' :: cs | 'E' :: '-' :: cs => exponentDigits true cs
  | 'e' :: '+' :: cs | 'E' :: '+' :: cs => exponentDigits false cs
  | 'e' :: cs | 'E' :: cs => exponentDigits false cs
  | cs => some (none, cs)

/-- A number without its sign. -/
def unsigned (negative : Bool) (cs : List Char) : Option (Number × List Char) := do
  let (w, cs) ← whole cs
  let (p, cs) ← places cs
  let (e, cs) ← exponent cs
  return (⟨negative, w, p, e⟩, cs)

def number : Reader Number
  | '-' :: cs => unsigned true cs
  | cs => unsigned false cs

/-! ## Strings -/

def isHighSurrogate (u : Nat) : Bool := decide (0xD800 ≤ u ∧ u < 0xDC00)

def isLowSurrogate (u : Nat) : Bool := decide (0xDC00 ≤ u ∧ u < 0xE000)

/-- The character that two surrogates stand for. -/
def pairedChar (high low : Nat) : Char :=
  Char.ofNat (0x10000 + 0x400 * (high - 0xD800) + (low - 0xDC00))

/-- The character that a backslash makes of the next one. -/
def escape? : Char → Option Char
  | '"' => some '"'
  | '\\' => some '\\'
  | '/' => some '/'
  | 'b' => some '\x08'
  | 'f' => some '\x0c'
  | 'n' => some '\n'
  | 'r' => some '\r'
  | 't' => some '\t'
  | _ => none

/-- What has been read of a string. -/
inductive StringSoFar where
  /-- Characters, the last one first. -/
  | characters (read : List Char)
  /-- Characters, and after them a surrogate that waits for its other half. -/
  | waiting (read : List Char) (high : Nat)
  /-- A surrogate was left alone. -/
  | broken

namespace StringSoFar

/-- The string after a character that is no surrogate. -/
def character (c : Char) : StringSoFar → StringSoFar
  | characters read => .characters (c :: read)
  | _ => .broken

/-- The string after an escaped UTF-16 unit. -/
def unit (u : Nat) : StringSoFar → StringSoFar
  | characters read =>
    if isHighSurrogate u then .waiting read u
    else if isLowSurrogate u then .broken
    else .characters (Char.ofNat u :: read)
  | waiting read high =>
    if isLowSurrogate u then .characters (pairedChar high u :: read) else .broken
  | broken => .broken

/-- The string that ends here, if it can be read. -/
def ended : StringSoFar → Option String
  | characters read => some (String.ofList read.reverse)
  | _ => none

end StringSoFar

/-- The rest of a string, up to its closing quote. -/
def stringRest (soFar : StringSoFar) : Reader (Option String)
  | '\\' :: 'u' :: a :: b :: c :: d :: cs =>
    match hexNumber? [a, b, c, d] with
    | some u => stringRest (soFar.unit u) cs
    | none => none
  | '\\' :: c :: cs =>
    match escape? c with
    | some e => stringRest (soFar.character e) cs
    | none => none
  | '"' :: cs => some (soFar.ended, cs)
  | c :: cs => if c.toNat < 0x20 then none else stringRest (soFar.character c) cs
  | [] => none

/-! ## Documents -/

/-- The object with these members, if their names can be read. -/
def ofMembers (members : List (Option String × Json)) : Json :=
  match members.mapM fun (name, v) => name.map (·, v) with
  | some members => .object members
  | none => .unreadable

mutual

/-- A value. Each step uses up a unit of `fuel`; twice the length of the text is enough. -/
def value : (fuel : Nat) → Reader Json
  | 0, _ => none
  | fuel + 1, cs =>
    match skipBlanks cs with
    | 'n' :: cs => (after? "ull".toList cs).map fun cs => (.null, cs)
    | 't' :: cs => (after? "rue".toList cs).map fun cs => (.boolean true, cs)
    | 'f' :: cs => (after? "alse".toList cs).map fun cs => (.boolean false, cs)
    | '"' :: cs => do
      let (s, cs) ← stringRest (.characters []) cs
      return (s.elim .unreadable .string, cs)
    | '[' :: cs =>
      match skipBlanks cs with
      | ']' :: cs => some (.array [], cs)
      | cs => do
        let (first, cs) ← value fuel cs
        let (rest, cs) ← items fuel cs
        return (.array (first :: rest), cs)
    | '\x7b' :: cs =>
      match skipBlanks cs with
      | '\x7d' :: cs => some (.object [], cs)
      | cs => do
        let (first, cs) ← member fuel cs
        let (rest, cs) ← members fuel cs
        return (ofMembers (first :: rest), cs)
    | cs => (number cs).map fun (n, cs) => (.number n, cs)

/-- The other items of an array, up to its closing bracket. -/
def items : (fuel : Nat) → Reader (List Json)
  | 0, _ => none
  | fuel + 1, cs =>
    match skipBlanks cs with
    | ']' :: cs => some ([], cs)
    | ',' :: cs => do
      let (item, cs) ← value fuel cs
      let (rest, cs) ← items fuel cs
      return (item :: rest, cs)
    | _ => none

/-- A name, a colon and a value. -/
def member : (fuel : Nat) → Reader (Option String × Json)
  | 0, _ => none
  | fuel + 1, cs =>
    match skipBlanks cs with
    | '"' :: cs => do
      let (name, cs) ← stringRest (.characters []) cs
      match skipBlanks cs with
      | ':' :: cs =>
        let (v, cs) ← value fuel cs
        return ((name, v), cs)
      | _ => none
    | _ => none

/-- The other members of an object, up to its closing brace. -/
def members : (fuel : Nat) → Reader (List (Option String × Json))
  | 0, _ => none
  | fuel + 1, cs =>
    match skipBlanks cs with
    | '\x7d' :: cs => some ([], cs)
    | ',' :: cs => do
      let (first, cs) ← member fuel cs
      let (rest, cs) ← members fuel cs
      return (first :: rest, cs)
    | _ => none

end

end Reader

/-- Reads a whole text. -/
def ofChars? (cs : List Char) : Option Json :=
  match Reader.value (2 * cs.length + 1) cs with
  | some (v, rest) =>
    if (Reader.skipBlanks rest).isEmpty then some (v.clip nestingLimit) else none
  | none => none

def ofText? (text : String) : Option Json := ofChars? text.toList

end GradualScript.Json
