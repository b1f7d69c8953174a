/-
# GradualScript.Text.Reader -- reading texts from the left

A reader looks at the characters of a text and answers with what it found at the beginning and
with the characters after it. What both document formats need is here.
-/

import GradualScript.Numeral

namespace GradualScript.Text

/-- What a reader finds at the beginning of a text, and the text after it. -/
abbrev Reader (α : Type) := List Char → Option (α × List Char)

/-- The text after the characters `word`, if it begins with them. -/
def after? : (word : List Char) → List Char → Option (List Char)
  | [], cs => some cs
  | w :: word, c :: cs => if w = c then after? word cs else none
  | _ :: _, [] => none

/-- The value of a hexadecimal digit. -/
def hexDigit? (c : Char) : Option Nat :=
  if '0' ≤ c ∧ c ≤ '9' then some (c.toNat - '0'.toNat)
  else if 'a' ≤ c ∧ c ≤ 'f' then some (c.toNat - 'a'.toNat + 10)
  else if 'A' ≤ c ∧ c ≤ 'F' then some (c.toNat - 'A'.toNat + 10)
  else none

/-- The number that hexadecimal digits stand for. -/
def hexNumber? (cs : List Char) : Option Nat :=
  cs.foldl (fun n c => return 16 * (← n) + (← hexDigit? c)) (some 0)

/-- The character with number `n`. Surrogates are no characters. -/
def charOf? (n : Nat) : Option Char := if n.isValidChar then some (Char.ofNat n) else none

/-- The number with these decimal digits, the first one counting most. -/
def ofDigits (ds : List Nat) : Nat := ds.foldl (fun n d => 10 * n + d) 0

end GradualScript.Text
