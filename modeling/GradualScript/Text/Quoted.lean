/-
# GradualScript.Text.Quoted -- strings and characters in quotes

A quoted text stands on one line and shows every character: the ones that a reader could not see
are written by a short escape or by number. Each kind of quote escapes only itself.
-/

import GradualScript.Text.Printable

namespace GradualScript.Text

/-- A character by its number, as in `\u{1f}`. -/
def numbered (c : Char) : List Char :=
  '\\' :: 'u' :: '\x7b' :: (Nat.toDigits 16 c.toNat ++ ['\x7d'])

/-- The characters that have a short escape, whatever the quotes are. -/
def shortEscape? : Char → Option Char
  | '\x00' => some '0'
  | '\t' => some 't'
  | '\r' => some 'r'
  | '\n' => some 'n'
  | '\\' => some '\\'
  | _ => none

/-- A character between two `quote`s. -/
def escaped (quote : Char) (c : Char) : List Char :=
  if c = quote then ['\\', c]
  else
    match shortEscape? c with
    | some letter => ['\\', letter]
    | none => if isPrintable c then [c] else numbered c

/-- Characters in quotes. -/
def quotedChars (quote : Char) (cs : List Char) : List Char :=
  quote :: (cs.flatMap (escaped quote) ++ [quote])

/-- A string in double quotes. -/
def quoted (s : String) : String := String.ofList (quotedChars '"' s.toList)

/-- A character in single quotes. -/
def quotedChar (c : Char) : String := String.ofList (quotedChars '\'' [c])

end GradualScript.Text
