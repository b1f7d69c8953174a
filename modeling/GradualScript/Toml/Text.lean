/-
# GradualScript.Toml.Text -- blanks, comments, strings and keys

What a document is made of below the level of values. A newline is a line feed, with or without a
carriage return before it. Control characters other than the tab may not stand anywhere.
-/

import GradualScript.Text.Reader

namespace GradualScript.Toml

open GradualScript.Text (Reader hexNumber? charOf?)

/-- A blank inside a line. -/
def isBlank (c : Char) : Bool := c == ' ' || c == '\t'

/-- Whether `c` may stand in a comment, or in a string as it is. -/
def isPlain (c : Char) : Bool := c == '\t' || (decide (0x20 ≤ c.toNat) && c != '\x7f')

def skipBlanks (cs : List Char) : List Char := cs.dropWhile isBlank

/-- The text after a newline. -/
def newline? : List Char → Option (List Char)
  | '\n' :: cs => some cs
  | '\r' :: '\n' :: cs => some cs
  | _ => none

/-- The text without a comment at its beginning. -/
def skipComment : List Char → List Char
  | '#' :: cs => cs.dropWhile isPlain
  | cs => cs

/-- The text after the rest of a line: blanks, perhaps a comment, and a newline or the end. -/
def lineEnd? (cs : List Char) : Option (List Char) :=
  match skipComment (skipBlanks cs) with
  | [] => some []
  | cs => newline? cs

/-- The text without the blanks, newlines and comments at its beginning. -/
def skipLines (comment : Bool) : List Char → List Char
  | '\n' :: cs => skipLines false cs
  | '\r' :: '\n' :: cs => skipLines false cs
  | c :: cs =>
    if comment then if isPlain c then skipLines true cs else c :: cs
    else if isBlank c then skipLines false cs
    else if c = '#' then skipLines true cs
    else c :: cs
  | [] => []

/-! ## Strings -/

/-- The character that a backslash makes of the next one. -/
def escape? : Char → Option Char
  | 'b' => some '\x08'
  | 't' => some '\t'
  | 'n' => some '\n'
  | 'f' => some '\x0c'
  | 'r' => some '\r'
  | '"' => some '"'
  | '\\' => some '\\'
  | _ => none

/-- The rest of a string in double quotes. `read` are the characters so far, the last one first. -/
def basicRest (read : List Char) : Reader String
  | '"' :: cs => some (String.ofList read.reverse, cs)
  | '\\' :: 'u' :: a :: b :: c :: d :: cs =>
    match (hexNumber? [a, b, c, d]).bind charOf? with
    | some e => basicRest (e :: read) cs
    | none => none
  | '\\' :: 'U' :: a :: b :: c :: d :: e :: f :: g :: h :: cs =>
    match (hexNumber? [a, b, c, d, e, f, g, h]).bind charOf? with
    | some e => basicRest (e :: read) cs
    | none => none
  | '\\' :: c :: cs =>
    match escape? c with
    | some e => basicRest (e :: read) cs
    | none => none
  | c :: cs => if isPlain c then basicRest (c :: read) cs else none
  | [] => none

/-- The rest of a string in single quotes, where nothing is escaped. -/
def literalRest (read : List Char) : Reader String
  | '\'' :: cs => some (String.ofList read.reverse, cs)
  | c :: cs => if isPlain c then literalRest (c :: read) cs else none
  | [] => none

/-- Where the reader of a string of several lines is: in its text, or at a line break that a
backslash takes out of it together with the blanks and newlines after it. -/
inductive LineMode where
  | text
  | beforeBreak
  | afterBreak

/-- The rest of a string in three double quotes. One or two quotes may stand right before the
closing ones. -/
def longBasicRest (mode : LineMode) (read : List Char) : Reader String
  | [] => none
  | c :: cs =>
    match mode, c, cs with
    | .beforeBreak, '\n', cs => longBasicRest .afterBreak read cs
    | .beforeBreak, '\r', '\n' :: cs => longBasicRest .afterBreak read cs
    | .beforeBreak, c, cs => if isBlank c then longBasicRest .beforeBreak read cs else none
    | .afterBreak, ' ', cs | .afterBreak, '\t', cs | .afterBreak, '\n', cs =>
      longBasicRest .afterBreak read cs
    | .afterBreak, '\r', '\n' :: cs => longBasicRest .afterBreak read cs
    | _, '"', '"' :: '"' :: '"' :: '"' :: cs =>
      some (String.ofList ('"' :: '"' :: read).reverse, cs)
    | _, '"', '"' :: '"' :: '"' :: cs => some (String.ofList ('"' :: read).reverse, cs)
    | _, '"', '"' :: '"' :: cs => some (String.ofList read.reverse, cs)
    | _, '\n', cs => longBasicRest .text ('\n' :: read) cs
    | _, '\r', '\n' :: cs => longBasicRest .text ('\n' :: read) cs
    | _, '\\', 'u' :: a :: b :: c :: d :: cs =>
      match (hexNumber? [a, b, c, d]).bind charOf? with
      | some e => longBasicRest .text (e :: read) cs
      | none => none
    | _, '\\', 'U' :: a :: b :: c :: d :: e :: f :: g :: h :: cs =>
      match (hexNumber? [a, b, c, d, e, f, g, h]).bind charOf? with
      | some e => longBasicRest .text (e :: read) cs
      | none => none
    | _, '\\', '\n' :: cs => longBasicRest .afterBreak read cs
    | _, '\\', '\r' :: '\n' :: cs => longBasicRest .afterBreak read cs
    | _, '\\', c :: cs =>
      if isBlank c then longBasicRest .beforeBreak read cs
      else
        match escape? c with
        | some e => longBasicRest .text (e :: read) cs
        | none => none
    | _, c, cs => if isPlain c then longBasicRest .text (c :: read) cs else none

/-- The rest of a string in three single quotes. -/
def longLiteralRest (read : List Char) : Reader String
  | '\'' :: '\'' :: '\'' :: '\'' :: '\'' :: cs =>
    some (String.ofList ('\'' :: '\'' :: read).reverse, cs)
  | '\'' :: '\'' :: '\'' :: '\'' :: cs => some (String.ofList ('\'' :: read).reverse, cs)
  | '\'' :: '\'' :: '\'' :: cs => some (String.ofList read.reverse, cs)
  | '\r' :: '\n' :: cs => longLiteralRest ('\n' :: read) cs
  | c :: cs => if c = '\n' || isPlain c then longLiteralRest (c :: read) cs else none
  | [] => none

/-- The text without a newline right at its beginning. -/
def skipFirstNewline (cs : List Char) : List Char := (newline? cs).getD cs

/-- A string of any of the four forms. -/
def string : Reader String
  | '"' :: '"' :: '"' :: cs => longBasicRest .text [] (skipFirstNewline cs)
  | '\'' :: '\'' :: '\'' :: cs => longLiteralRest [] (skipFirstNewline cs)
  | '"' :: cs => basicRest [] cs
  | '\'' :: cs => literalRest [] cs
  | _ => none

/-! ## Keys -/

/-- A character of a key without quotes. -/
def isKeyChar (c : Char) : Bool :=
  ('a' ≤ c && c ≤ 'z') || ('A' ≤ c && c ≤ 'Z') || ('0' ≤ c && c ≤ '9') || c == '_' || c == '-'

/-- One part of a key. -/
def simpleKey : Reader String
  | '"' :: cs => basicRest [] cs
  | '\'' :: cs => literalRest [] cs
  | cs =>
    match cs.span isKeyChar with
    | ([], _) => none
    | (word, rest) => some (String.ofList word, rest)

/-- The parts of a key, separated by points. Each part uses up a unit of `fuel`. -/
def keyParts : (fuel : Nat) → Reader (List String)
  | 0, _ => none
  | fuel + 1, cs => do
    let (first, cs) ← simpleKey (skipBlanks cs)
    match skipBlanks cs with
    | '.' :: cs =>
      let (rest, cs) ← keyParts fuel cs
      return (first :: rest, cs)
    | cs => return ([first], cs)

/-- How many parts a key may have, and how deeply values may be nested. -/
def nestingLimit : Nat := 79

/-- A key, with the blanks around it. -/
def key (cs : List Char) : Option (List String × List Char) := keyParts nestingLimit cs

end GradualScript.Toml
