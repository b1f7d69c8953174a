/-
# GradualScript.Binary64 -- rounding to 64-bit binary floating point

A positive floating-point number is an integer of at most 53 bits times a power of two that is not
less than `2 ^ minExponent`. Products and quotients are those of the exact numbers, rounded to the
nearest such number, a half to the even one. Signs are set aside.

No hardware arithmetic is involved: a number is its integer and its exponent, and every step is one
on integers.
-/

import GradualScript.Decimal.Division

namespace GradualScript

/-- The number `mantissa * 2 ^ exponent`. -/
structure Binary64 where
  mantissa : Nat
  exponent : Int
deriving DecidableEq, Repr, Inhabited

namespace Binary64

/-- Bits of a mantissa. -/
def precision : Nat := 53

/-- The exponent of the smallest positive number. -/
def minExponent : Int := -1074

/-- Numbers are less than two to this power. -/
def maxExponent : Nat := 1024

def zero : Binary64 := ⟨0, 0⟩

/-- Two to the power of `n`; a negative exponent counts as zero. -/
def pow2 (n : Int) : Nat := Nat.pow 2 n.toNat

/-- The greatest `k` with `2 ^ k ≤ num / den`, for positive integers. -/
def log2Quotient (num den : Nat) : Int :=
  let k := (num.log2 : Int) - den.log2
  if den * pow2 k ≤ num * pow2 (-k) then k else k - 1

/-- The number nearest to `num / den`, unless it is too large. -/
def nearest (num den : Nat) : Option Binary64 :=
  if num = 0 then some zero
  else
    let exponent := max minExponent (log2Quotient num den - (precision - 1))
    let mantissa := Decimal.divHalfEven (num * pow2 (-exponent)) (den * pow2 exponent)
    if mantissa * pow2 exponent < Nat.pow 2 maxExponent then some ⟨mantissa, exponent⟩ else none

def ofNat (n : Nat) : Option Binary64 := nearest n 1

def isZero (a : Binary64) : Bool := a.mantissa == 0

/-- The rounded product. -/
def mul (a b : Binary64) : Option Binary64 :=
  let exponent := a.exponent + b.exponent
  nearest (a.mantissa * b.mantissa * pow2 exponent) (pow2 (-exponent))

/-- The rounded quotient, for a divisor that is not zero. -/
def div (a b : Binary64) : Option Binary64 :=
  let exponent := a.exponent - b.exponent
  nearest (a.mantissa * pow2 exponent) (b.mantissa * pow2 (-exponent))

/-! ## Exact decimal expansion -/

/-- Halves `m` as often as it is even and `count` allows; the result and the number of halvings. -/
def halve : (count : Nat) → Nat → Nat × Nat
  | 0, m => (m, 0)
  | count + 1, m =>
    if m % 2 = 0 then
      let (odd, halvings) := halve count (m / 2)
      (odd, halvings + 1)
    else (m, 0)

/-- The decimal that is equal to a number, with the least scale that is not negative. Numbers
below `2 ^ (minExponent + precision - 1)` keep the scale of the smallest one. -/
def toDecimal (a : Binary64) : Decimal :=
  if a.isZero then ⟨0, 0⟩
  else if a.exponent = minExponent ∧ a.mantissa < Nat.pow 2 (precision - 1) then
    ⟨(a.mantissa * Nat.pow 5 minExponent.natAbs : Nat), minExponent.natAbs⟩
  else
    let (mantissa, halvings) := halve (-a.exponent).toNat a.mantissa
    let exponent := a.exponent + halvings
    if exponent < 0 then ⟨(mantissa * Nat.pow 5 exponent.natAbs : Nat), -exponent⟩
    else ⟨(mantissa * pow2 exponent : Nat), 0⟩

end Binary64

end GradualScript
