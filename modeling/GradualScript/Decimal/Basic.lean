/-
# GradualScript.Decimal.Basic -- decimal numbers with a scale

A decimal is an integer together with the number of its digits that stand after the point, so
`1.0` and `1.00` are different decimals of the same size. A negative scale stands for zeros before
the point. Sums and differences are exact and keep the longer of the two scales; products are
exact too, but a factor of one leaves the other factor stripped of its trailing zeros.

Equality compares digits and scale. `compare` compares values.
-/

namespace GradualScript

/-- The number `digits * 10 ^ (-scale)`. A scale that is read is one of 64 bits (`scaleInRange`). In
calculations it is an integer without bounds, so the scale of a product never overflows. -/
structure Decimal where
  digits : Int
  scale : Int
deriving DecidableEq, Repr, Inhabited

namespace Decimal

/-- Ten to the power of `n`; a negative exponent counts as zero. -/
def pow10 (n : Int) : Nat := Nat.pow 10 n.toNat

/-- The digits that `d` has when it is written with at least its own scale. Zero needs no power of
ten, however far its scale is away. -/
def digitsAt (d : Decimal) (scale : Int) : Int :=
  if d.digits = 0 then 0 else d.digits * pow10 (scale - d.scale)

/-- How many places a zero operand may add to the other operand of a sum. -/
def zeroPlaces : Int := 15

/-- A sum with zero is the other operand, written with up to `zeroPlaces` more places if the zero
has more places. The right operand is looked at first. -/
def raised (d zero : Decimal) : Decimal :=
  let scale := d.scale + min zeroPlaces (max 0 (zero.scale - d.scale))
  ⟨d.digitsAt scale, scale⟩

/-- The exact sum. -/
def add (a b : Decimal) : Decimal :=
  if b.digits = 0 then a.raised b
  else if a.digits = 0 then b.raised a
  else
    let scale := max a.scale b.scale
    ⟨a.digitsAt scale + b.digitsAt scale, scale⟩

/-- The exact difference. -/
def sub (a b : Decimal) : Decimal :=
  let scale := max a.scale b.scale
  ⟨a.digitsAt scale - b.digitsAt scale, scale⟩

/-- The longest scale at which one is still recognised as a factor. -/
def oneScale : Int := 38

/-- Whether `d` is one, written with a scale from zero to `oneScale`. -/
def isOne (d : Decimal) : Bool :=
  decide (0 ≤ d.scale) && decide (d.scale ≤ oneScale) && d.digits == pow10 d.scale

/-- A level for counting digits: `n` has at most `2 ^ digitLevel n` of them. -/
def digitLevel (n : Nat) : Nat := n.log2.log2 + 1

/-- Strips the zeros from the end of a positive number with at most `2 ^ level` digits, and counts
them: first as many as half of the digits, if there are so many, then as many as a quarter. -/
def stripZeros : (level : Nat) → Nat → Nat × Nat
  | 0, n => (n, 0)
  | level + 1, n =>
    if n % 10 ^ 2 ^ level = 0 then
      let (stripped, count) := stripZeros level (n / 10 ^ 2 ^ level)
      (stripped, count + 2 ^ level)
    else stripZeros level n

/-- Counts the digits of a number with at most `2 ^ level` digits. -/
def countDigits : (level : Nat) → Nat → Nat
  | 0, _ => 1
  | level + 1, n =>
    if n < 10 ^ 2 ^ level then countDigits level n
    else 2 ^ level + countDigits level (n / 10 ^ 2 ^ level)

/-- Number of decimal digits; zero has one. -/
def digitCount (n : Nat) : Nat := countDigits (digitLevel n) n

/-- The same number without trailing zeros. Zero has scale zero. -/
def normalized (d : Decimal) : Decimal :=
  if d.digits = 0 then ⟨0, 0⟩
  else
    let (stripped, count) := stripZeros (digitLevel d.digits.natAbs) d.digits.natAbs
    ⟨d.digits.sign * stripped, d.scale - count⟩

/-- The exact product. -/
def mul (a b : Decimal) : Decimal :=
  if a.isOne then b.normalized
  else if b.isOne then a.normalized
  else ⟨a.digits * b.digits, a.scale + b.scale⟩

/-- Compares positive decimals. The one with more digits before the point is greater; between equal
counts the digits decide, written out at the longer scale. -/
def compareSizes (a b : Decimal) : Ordering :=
  let before (d : Decimal) : Int := digitCount d.digits.natAbs - d.scale
  match Ord.compare (before a) (before b) with
  | .eq =>
    let scale := max a.scale b.scale
    Ord.compare (a.digitsAt scale).natAbs (b.digitsAt scale).natAbs
  | order => order

/-- Compares values: trailing zeros make no difference. Decimals of different signs are compared by
their signs, so that scales are brought together only where they are close to each other. -/
def compare (a b : Decimal) : Ordering :=
  match Ord.compare a.digits.sign b.digits.sign with
  | .eq =>
    match a.digits.sign with
    | 0 => .eq
    | 1 => compareSizes a b
    | _ => compareSizes b a
  | order => order

end Decimal

end GradualScript
