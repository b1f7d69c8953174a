/-
# GradualScript.Decimal.Division -- quotients at the dividend's scale

A quotient of decimals has the scale of its dividend. It is found in two steps, each of which
rounds: first to a number of significant digits that leaves room for the whole integer quotient
(`quotientDigits`, a half goes up), then to the dividend's scale (a half goes to the even
neighbour). Signs are set aside: both roundings are symmetric. A divisor of one leaves the dividend
as it is, however many digits it has.
-/

import GradualScript.Decimal.Basic

namespace GradualScript

namespace Decimal

/-- `num / den` rounded to the nearest integer; a half goes to the even neighbour. -/
def divHalfEven (num den : Nat) : Nat :=
  let quotient := num / den
  let twice := 2 * (num % den)
  if twice < den then quotient
  else if den < twice then quotient + 1
  else quotient + quotient % 2

/-- Significant digits of a quotient before it is brought to a scale, if its integer part is no
longer. -/
def quotientDigits : Nat := 100

/-- The least `k` for which `x * 10 ^ k` reaches `y`, for a positive `x`. -/
def shiftToReach (x y : Nat) : Nat :=
  let k := digitCount y - digitCount x
  if y ≤ x * Nat.pow 10 k then k else k + 1

/-- The quotient `x / y` of positive integers: shifted until the integer quotient is not zero,
then carried to `quotientDigits` significant digits, the next digit rounding it half up. -/
def quotient (x y : Nat) : Decimal :=
  let shift := shiftToReach x y
  let shifted := x * Nat.pow 10 shift
  let places := quotientDigits - digitCount (shifted / y)
  let extended := shifted * Nat.pow 10 places
  let next := (extended % y) * 10 / y
  ⟨(extended / y + if 5 ≤ next then 1 else 0 : Nat), (shift + places : Nat)⟩

/-- The non-negative decimal `d` at `scale`; a half goes to the even neighbour. If `d` has fewer
digits than are to be dropped, then it is less than a tenth of the last place that is kept. -/
def atScale (d : Decimal) (scale : Int) : Decimal :=
  if d.scale ≤ scale then ⟨d.digitsAt scale, scale⟩
  else if digitCount d.digits.natAbs < d.scale - scale then ⟨0, scale⟩
  else ⟨(divHalfEven d.digits.natAbs (pow10 (d.scale - scale)) : Nat), scale⟩

/-- The quotient of `dividend` by a `divisor` that is not zero, at the dividend's scale. -/
def divide (dividend divisor : Decimal) : Decimal :=
  if dividend.digits = 0 ∨ divisor.isOne then dividend
  else
    let size := quotient dividend.digits.natAbs divisor.digits.natAbs
    let scaled := atScale ⟨size.digits, size.scale + (dividend.scale - divisor.scale)⟩
      dividend.scale
    ⟨dividend.digits.sign * divisor.digits.sign * scaled.digits, dividend.scale⟩

end Decimal

end GradualScript
