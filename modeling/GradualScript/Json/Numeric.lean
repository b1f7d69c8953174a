/-
# GradualScript.Json.Numeric -- what a number in a document stands for

A number without point and exponent that fits into 64 bits stands for itself. Any other number
stands for a binary floating-point number: the leading digits that together fit into 64 bits are
taken as an integer, which is then multiplied or divided by a power of ten. Both steps round, so
the result need not be the floating-point number nearest to what is written.
-/

import GradualScript.Binary64
import GradualScript.Json.Value

namespace GradualScript.Json.Number

/-- What the leading digits of a number have to be less than. -/
def digitLimit : Nat := UInt64.size

/-- Continues the number `n` with digits as long as it stays below `digitLimit`; the number, and
how many digits were taken. -/
def takeDigits : Nat → List Nat → Nat × Nat
  | n, [] => (n, 0)
  | n, d :: ds =>
    if 10 * n + d < digitLimit then
      let (m, taken) := takeDigits (10 * n + d) ds
      (m, taken + 1)
    else (n, 0)

/-- The leading digits of a number, and the power of ten that goes with them. A digit of the whole
part that is left out makes the power greater, a digit taken after the point makes it less. -/
def leading (n : Number) : Nat × Int :=
  let wholeDigits := (Nat.toDigits 10 n.whole).map fun c => c.toNat - '0'.toNat
  let (m, whole) := takeDigits 0 wholeDigits
  let (m, places) := takeDigits m n.places
  (m, ((wholeDigits.length - whole : Nat) : Int) - (places : Nat) + n.exponent.getD 0)

/-- The greatest power of ten that is used as a factor or divisor. -/
def maxPower : Nat := 308

/-- Divides by ten to the power `maxPower` until the power that is left is not below `-maxPower`,
or nothing is left of the number. -/
def dividePower : (steps : Nat) → Binary64 → Nat → Option Binary64
  | 0, _, _ => some .zero
  | steps + 1, a, power => do
    if a.isZero then return .zero
    let divisor ← Binary64.ofNat (Nat.pow 10 (min power maxPower))
    let quotient ← a.div divisor
    if power ≤ maxPower then return quotient
    dividePower steps quotient (power - maxPower)

/-- The floating-point number that a number stands for, its sign set aside. Numbers that are too
large stand for nothing. -/
def binary? (n : Number) : Option Binary64 := do
  let (m, power) := n.leading
  let a ← Binary64.ofNat m
  if power < 0 then dividePower 4 a power.natAbs
  else if a.isZero then return .zero
  else if power ≤ maxPower then a.mul (← Binary64.ofNat (Nat.pow 10 power.natAbs))
  else none

/-- The integer that a number stands for, if it fits into 64 bits: without sign if it is not
negative, with sign if it is. -/
def word? (n : Number) : Option Int :=
  n.plain?.filter fun i => decide (Int64.minValue.toInt ≤ i) && decide (i < UInt64.size)

/-- The decimal that a number stands for. -/
def decimal? (n : Number) : Option Decimal :=
  match n.word? with
  | some i => some ⟨i, 0⟩
  | none => do
    let d := (← n.binary?).toDecimal
    return ⟨if n.negative then -d.digits else d.digits, d.scale⟩

end GradualScript.Json.Number
