/-
# GradualScript.Numeral -- how integers are written in text

An integer is written as an optional sign and digits. Underscores may stand anywhere after the
first digit and mean nothing.
-/

namespace GradualScript.Numeral

/-- The value of a decimal digit. -/
def digit? (c : Char) : Option Nat :=
  if '0' ≤ c ∧ c ≤ '9' then some (c.toNat - '0'.toNat) else none

/-- Continues a number `value` with digits and underscores. -/
def continueDigits : Nat → List Char → Option Nat
  | value, [] => some value
  | value, '_' :: cs => continueDigits value cs
  | value, c :: cs =>
    match digit? c with
    | some d => continueDigits (10 * value + d) cs
    | none => none

/-- An unsigned number: a digit, then digits and underscores. -/
def magnitude? : List Char → Option Nat
  | [] => none
  | c :: cs => (digit? c).bind fun d => continueDigits d cs

/-- A number with an optional sign. -/
def integer? : List Char → Option Int
  | '-' :: cs => (magnitude? cs).map fun n => -(n : Int)
  | '+' :: cs => (magnitude? cs).map Int.ofNat
  | cs => (magnitude? cs).map Int.ofNat

/-- A number with an optional sign and without underscores. -/
def plainInteger? (cs : List Char) : Option Int :=
  if cs.contains '_' then none else integer? cs

end GradualScript.Numeral
