/-
# GradualScript.Decimal.Text -- how decimals are read and written

A decimal is read from the text of an integer into which one point may be put, followed by an
optional exponent. It is written in one of three ways: in full, in scientific notation when more
than `pointZeros` zeros would stand between the point and the first digit, or with an exponent
after the digits when more than `trailingZeros` zeros would have to be added to them.
-/

import GradualScript.Decimal.Basic
import GradualScript.Numeral

namespace GradualScript.Decimal

/-! ## Reading -/

/-- Scales are 64-bit numbers. -/
def scaleInRange (scale : Int) : Bool :=
  decide (Int64.minValue.toInt ≤ scale) && decide (scale ≤ Int64.maxValue.toInt)

/-- The part before an `e` or `E`, and the exponent after it if there is one. -/
def splitExponent (cs : List Char) : List Char × Option (List Char) :=
  match cs.span fun c => c != 'e' && c != 'E' with
  | (mantissa, []) => (mantissa, none)
  | (mantissa, _ :: exponent) => (mantissa, some exponent)

/-- The text without its first point, and the number of digits after that point. -/
def splitPoint (cs : List Char) : List Char × Nat :=
  match cs.span (· != '.') with
  | (whole, []) => (whole, 0)
  | (whole, _ :: places) => (whole ++ places, (places.filter (· != '_')).length)

/-- Reads a decimal. -/
def ofChars? (cs : List Char) : Option Decimal := do
  let (mantissa, exponentText) := splitExponent cs
  let exponent ← match exponentText with
    | none => some 0
    | some text => Numeral.plainInteger? text
  let (digitText, places) := splitPoint mantissa
  let digits ← Numeral.integer? digitText
  let scale := (places : Int) - exponent
  if scaleInRange scale then some ⟨digits, scale⟩ else none

def ofText? (text : String) : Option Decimal := ofChars? text.toList

/-! ## Writing -/

/-- Zeros that may stand between the point and the first digit of a decimal written in full. -/
def pointZeros : Int := 5

/-- Zeros that may be added to the digits of a decimal written in full. -/
def trailingZeros : Int := 15

private def zeros (n : Nat) : List Char := List.replicate n '0'

/-- Digits with the point put before the last `places` of them. -/
def withPoint (digits : List Char) (places : Nat) : List Char :=
  if places = 0 then digits
  else if places < digits.length then
    digits.take (digits.length - places) ++ '.' :: digits.drop (digits.length - places)
  else '0' :: '.' :: zeros (places - digits.length) ++ digits

/-- One digit, the point and the other digits, and the exponent that makes up for it. -/
def scientific (digits : List Char) (scale : Int) : List Char :=
  let exponent := (digits.length : Int) - 1 - scale
  let mantissa := match digits with
    | [] => []
    | [d] => [d]
    | d :: ds => d :: '.' :: ds
  let sign := if exponent < 0 then "-" else "+"
  mantissa ++ 'E' :: sign.toList ++ Nat.toDigits 10 exponent.natAbs

/-- The text of a positive decimal. -/
def magnitudeChars (n : Nat) (scale : Int) : List Char :=
  let digits := Nat.toDigits 10 n
  if (digits.length : Int) + pointZeros < scale then scientific digits scale
  else if scale < -trailingZeros then
    digits ++ 'e' :: '+' :: Nat.toDigits 10 scale.natAbs
  else if scale < 0 then digits ++ zeros scale.natAbs
  else withPoint digits scale.natAbs

/-- The printed form of a decimal. Zero is `0`, whatever its scale. -/
def toChars (d : Decimal) : List Char :=
  if d.digits = 0 then ['0']
  else if d.digits < 0 then '-' :: magnitudeChars d.digits.natAbs d.scale
  else magnitudeChars d.digits.natAbs d.scale

def toText (d : Decimal) : String := String.ofList d.toChars

/-- The digits and the power of ten, as in `15e-1`. -/
def exponentText (d : Decimal) : String := toString d.digits ++ "e" ++ toString (-d.scale)

/-- The limbs of `n` in base `2 ^ 64`, least significant first; at most `fuel` of them. -/
def limbs : Nat → Nat → List Nat
  | 0, _ => []
  | fuel + 1, n => if n = 0 then [] else n % 2 ^ 64 :: limbs fuel (n / 2 ^ 64)

/-- The parts of a decimal as they are stored: sign, scale and limbs. -/
def storedText (d : Decimal) : String :=
  let sign := if d.digits = 0 then "NoSign" else if d.digits < 0 then "Minus" else "Plus"
  let size := d.digits.natAbs
  let words := (limbs (size.log2 / 64 + 1) size).map toString
  "BigDecimal(sign=" ++ sign ++ ", scale=" ++ toString d.scale ++ ", digits=["
    ++ ", ".intercalate words ++ "])"

end GradualScript.Decimal
