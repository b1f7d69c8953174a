/-
# GradualScript.Proofs.Decimal.Division -- quotients are rounded twice

A quotient is to have the scale of its dividend, and to be as near to the exact quotient as it can
be, with a half going to the even neighbour. What is computed is not rounded once but twice: first
at a place that depends on how long the quotient is before the point (`guardPlaces`), with a half
going up, and what comes of that at the scale of the dividend (`divide_eq`).

This is the same exactly if the second rounding does not see the first (`RoundsOnce`). It does in
three ways. The first rounding may stop before the last place that the dividend has, so that zeros
follow; it may stop right there, and put a half up; or it may come to a tie that the exact quotient
is not on, which is then resolved to the wrong side. With a divisor that has fewer digits than there
are places to spare, none of this happens (`divide_eq_of_room`).

Digits are counted and shifted by integers alone, so the sections before the last one say what those
counts are in terms of logarithms, and what the integer quotients are in terms of exact ones.
-/

import GradualScript.Decimal.Division
import GradualScript.Proofs.Decimal.Text
import Mathlib.Algebra.Order.Floor.Semifield
import Mathlib.Algebra.Order.Round
import Mathlib.Data.Int.Log
import Mathlib.Data.Rat.Floor
import Mathlib.Tactic.Positivity
import Mathlib.Tactic.Linarith
import Mathlib.Tactic.FieldSimp
import Mathlib.Tactic.Ring

namespace GradualScript

namespace Decimal

/-! ## Rounding to the nearest integer -/

/-- The nearest integer; of two that are equally near, the even one. -/
def roundHalfEven (q : ℚ) : ℤ :=
  if q - ⌊q⌋ < 1 / 2 then ⌊q⌋
  else if 1 / 2 < q - ⌊q⌋ then ⌊q⌋ + 1
  else ⌊q⌋ + ⌊q⌋ % 2

/-- `n` is as near to `q` as an integer can be, and even if another one is equally near. -/
def IsHalfEven (q : ℚ) (n : ℤ) : Prop := |q - n| < 1 / 2 ∨ |q - n| = 1 / 2 ∧ Even n

variable {q : ℚ} {m n : ℤ}

theorem isHalfEven_roundHalfEven (q : ℚ) : IsHalfEven q (roundHalfEven q) := by
  have low := Int.floor_le q
  have high := Int.lt_floor_add_one q
  unfold roundHalfEven
  split
  case isTrue near =>
    left
    rw [abs_lt]
    constructor <;> linarith
  case isFalse above =>
    split
    case isTrue far =>
      left
      push_cast
      rw [abs_lt]
      constructor <;> linarith
    case isFalse below =>
      have tie : q = ⌊q⌋ + 1 / 2 := by linarith
      right
      rcases Int.emod_two_eq_zero_or_one ⌊q⌋ with even | odd
      · rw [even, add_zero]
        exact ⟨by rw [abs_eq (by norm_num)]; left; linarith, Int.even_iff.mpr even⟩
      · rw [odd]
        refine ⟨?_, Int.even_iff.mpr (by omega)⟩
        push_cast
        rw [abs_eq (by norm_num)]
        right
        linarith

theorem IsHalfEven.error_le (near : IsHalfEven q n) : |q - n| ≤ 1 / 2 :=
  near.elim le_of_lt fun tie => le_of_eq tie.1

theorem IsHalfEven.even_of_tie (near : IsHalfEven q n) (tie : |q - n| = 1 / 2) : Even n :=
  near.elim (fun less => absurd tie less.ne) And.right

/-- At most one of two neighbours is meant. -/
theorem IsHalfEven.not_succ (here : IsHalfEven q n) : ¬IsHalfEven q (n + 1) := by
  intro next
  have below := (abs_le.mp here.error_le).2
  have above := (abs_le.mp next.error_le).1
  push_cast at above
  have tie : q = n + 1 / 2 := by linarith
  have even : Even n := here.elim (fun near => by rw [tie] at near; norm_num at near) And.right
  have even' : Even (n + 1) :=
    next.elim (fun near => by rw [tie] at near; push_cast at near; norm_num at near) And.right
  rw [Int.even_iff] at even even'
  omega

theorem IsHalfEven.unique (first : IsHalfEven q m) (second : IsHalfEven q n) : m = n := by
  obtain ⟨l, r⟩ := abs_le.mp first.error_le
  obtain ⟨l', r'⟩ := abs_le.mp second.error_le
  have close : (m : ℚ) ≤ n + 1 := by linarith
  have close' : (n : ℚ) ≤ m + 1 := by linarith
  norm_cast at close close'
  have cases : m = n ∨ m = n + 1 ∨ n = m + 1 := by omega
  rcases cases with same | rfl | rfl
  · exact same
  · exact (second.not_succ first).elim
  · exact (first.not_succ second).elim

theorem roundHalfEven_eq_iff : roundHalfEven q = n ↔ IsHalfEven q n :=
  ⟨fun same => same ▸ isHalfEven_roundHalfEven q,
    fun near => (isHalfEven_roundHalfEven q).unique near⟩

theorem roundHalfEven_intCast (n : ℤ) : roundHalfEven n = n :=
  roundHalfEven_eq_iff.mpr (Or.inl (by rw [sub_self, abs_zero]; norm_num))

theorem roundHalfEven_neg (q : ℚ) : roundHalfEven (-q) = -roundHalfEven q := by
  have near := isHalfEven_roundHalfEven q
  have same : |-q - ((-roundHalfEven q : ℤ) : ℚ)| = |q - roundHalfEven q| := by
    rw [← abs_neg]
    push_cast
    ring_nf
  rw [roundHalfEven_eq_iff, IsHalfEven, same, even_neg]
  exact near

/-- Between two ties; those are also for an even number. -/
theorem IsHalfEven.of_bounds (low : n - 1 / 2 < q ∨ Even n ∧ n - 1 / 2 ≤ q)
    (high : q < n + 1 / 2 ∨ Even n ∧ q ≤ n + 1 / 2) : IsHalfEven q n := by
  by_cases even : Even n
  · have within : |q - n| ≤ 1 / 2 := by
      rw [abs_le]
      constructor
      · rcases low with low | ⟨_, low⟩ <;> linarith
      · rcases high with high | ⟨_, high⟩ <;> linarith
    exact (lt_or_eq_of_le within).imp_right fun tie => ⟨tie, even⟩
  · have low := low.resolve_right fun le => even le.1
    have high := high.resolve_right fun le => even le.1
    left
    rw [abs_lt]
    constructor <;> linarith

/-- A half goes to the even neighbour. -/
theorem roundHalfEven_half (n : ℤ) : roundHalfEven (n + 1 / 2) = n + n % 2 := by
  have floor : ⌊(n + 1 / 2 : ℚ)⌋ = n := by
    rw [Int.floor_intCast_add]
    norm_num
  rw [roundHalfEven, floor]
  norm_num

/-! ## Rounding twice -/

/-- `q` rounded to `m` places after the point; a half goes up. With a negative `m` there are zeros
before the point. -/
def roundedTo (m : ℤ) (q : ℚ) : ℚ := round (q * 10 ^ m) / 10 ^ m

/-- Rounding `q` to `m` places first does not show when the outcome is rounded to an integer. -/
structure RoundsOnce (m : ℤ) (q : ℚ) : Prop where
  /-- With places to spare, `q` may only come to a tie from the side that the tie is resolved to. -/
  tie : 0 < m → ∀ n : ℤ, roundedTo m q = n + 1 / 2 →
    (Even n ∧ q ≤ n + 1 / 2) ∨ (Odd n ∧ n + 1 / 2 ≤ q)
  /-- Without, a half goes up at once, which is right below an even number. -/
  half : m = 0 → ∀ n : ℤ, q = n + 1 / 2 → Odd n
  /-- With fewer places than the integer has, the integer must end in zeros. -/
  zeros : m < 0 → (10 : ℤ) ^ m.natAbs ∣ roundHalfEven q

theorem pow_ten_pos (m : ℤ) : (0 : ℚ) < 10 ^ m := zpow_pos (by norm_num) m

/-- What is rounded to less than an integer is less than that itself. -/
theorem lt_of_round_lt {x : ℚ} {k : ℤ} (less : round x < k) : x < k := by
  have error := (abs_le.mp (abs_sub_round x)).2
  have gap : ((round x : ℤ) : ℚ) + 1 ≤ k := by exact_mod_cast less
  linarith

theorem lt_of_lt_round {x : ℚ} {k : ℤ} (less : k < round x) : k < x := by
  have error := (abs_le.mp (abs_sub_round x)).1
  have gap : (k : ℚ) + 1 ≤ (round x : ℤ) := by exact_mod_cast less
  linarith

/-- With places to spare, ties are among the numbers that the first rounding comes to. -/
theorem exists_tie (positive : 0 < m) (n : ℤ) : ∃ k : ℤ, (k : ℚ) = (n + 1 / 2) * 10 ^ m := by
  obtain ⟨j, rfl⟩ : ∃ j : ℕ, m = (j + 1 : ℕ) := ⟨m.toNat - 1, by omega⟩
  refine ⟨(2 * n + 1) * 5 * 10 ^ j, ?_⟩
  push_cast
  rw [← Nat.cast_succ, zpow_natCast, pow_succ]
  ring

theorem lt_tie_of_roundedTo_lt (positive : 0 < m) (less : roundedTo m q < n + 1 / 2) :
    q < n + 1 / 2 := by
  obtain ⟨k, tie⟩ := exists_tie positive n
  rw [roundedTo, div_lt_iff₀ (pow_ten_pos m), ← tie, Int.cast_lt] at less
  have below := lt_of_round_lt less
  rw [tie] at below
  exact lt_of_mul_lt_mul_right below (pow_ten_pos m).le

theorem tie_lt_of_lt_roundedTo (positive : 0 < m) (less : n + 1 / 2 < roundedTo m q) :
    n + 1 / 2 < q := by
  obtain ⟨k, tie⟩ := exists_tie positive n
  rw [roundedTo, lt_div_iff₀ (pow_ten_pos m), ← tie, Int.cast_lt] at less
  have above := lt_of_lt_round less
  rw [tie] at above
  exact lt_of_mul_lt_mul_right above (pow_ten_pos m).le

/-- Every tie that the first rounding comes to is resolved towards `q`. -/
def TiesResolved (m : ℤ) (q : ℚ) : Prop :=
  ∀ n : ℤ, roundedTo m q = n + 1 / 2 → (Even n ∧ q ≤ n + 1 / 2) ∨ (Odd n ∧ n + 1 / 2 ≤ q)

theorem tiesResolved_of_same (same : roundHalfEven (roundedTo m q) = roundHalfEven q) :
    TiesResolved m q := by
  intro n tie
  have once : roundHalfEven q = n + n % 2 := by rw [← same, tie, roundHalfEven_half]
  have near := (roundHalfEven_eq_iff.mp once).error_le
  rcases Int.even_or_odd n with even | odd
  · left
    rw [Int.even_iff.mp even, add_zero, abs_le] at near
    exact ⟨even, by linarith⟩
  · right
    rw [Int.odd_iff.mp odd, abs_le] at near
    push_cast at near
    exact ⟨odd, by linarith⟩

/-- Of the tie below `n`, `q` lies on the same side as the outcome of the first rounding, unless
that outcome is the tie itself. -/
theorem TiesResolved.below (resolved : TiesResolved m q) (positive : 0 < m)
    (near : IsHalfEven (roundedTo m q) n) : n - 1 / 2 < q ∨ Even n ∧ n - 1 / 2 ≤ q := by
  rcases lt_or_eq_of_le (abs_le.mp near.error_le).1 with less | same
  · have above : ((n - 1 : ℤ) : ℚ) + 1 / 2 < roundedTo m q := by
      push_cast
      linarith
    have above := tie_lt_of_lt_roundedTo positive above
    push_cast at above
    exact Or.inl (by linarith)
  · have tie : roundedTo m q = ((n - 1 : ℤ) : ℚ) + 1 / 2 := by
      push_cast
      linarith
    have even : Even n := near.even_of_tie (by rw [← same, abs_neg, abs_of_pos one_half_pos])
    rcases resolved (n - 1) tie with ⟨even', _⟩ | ⟨_, le⟩
    · rw [Int.even_iff] at even even'
      omega
    · push_cast at le
      exact Or.inr ⟨even, by linarith⟩

theorem TiesResolved.above (resolved : TiesResolved m q) (positive : 0 < m)
    (near : IsHalfEven (roundedTo m q) n) : q < n + 1 / 2 ∨ Even n ∧ q ≤ n + 1 / 2 := by
  rcases lt_or_eq_of_le (abs_le.mp near.error_le).2 with less | same
  · exact Or.inl (lt_tie_of_roundedTo_lt positive (by linarith))
  · have even : Even n := near.even_of_tie (by rw [same, abs_of_pos one_half_pos])
    rcases resolved n (by linarith) with ⟨_, le⟩ | ⟨odd, _⟩
    · exact Or.inr ⟨even, le⟩
    · exact absurd even (Int.not_even_iff_odd.mpr odd)

/-- A tie of the second rounding is resolved away from `q` if the first rounding has crossed it. -/
theorem roundHalfEven_roundedTo_of_pos (positive : 0 < m) :
    roundHalfEven (roundedTo m q) = roundHalfEven q ↔ TiesResolved m q := by
  refine ⟨tiesResolved_of_same, fun resolved => ?_⟩
  have near := isHalfEven_roundHalfEven (roundedTo m q)
  rw [eq_comm, roundHalfEven_eq_iff]
  exact .of_bounds (resolved.below positive near) (resolved.above positive near)

theorem roundHalfEven_roundedTo_zero :
    roundHalfEven (roundedTo 0 q) = roundHalfEven q ↔ ∀ n : ℤ, q = n + 1 / 2 → Odd n := by
  have plain : roundedTo 0 q = round q := by rw [roundedTo, zpow_zero, mul_one, div_one]
  rw [plain, roundHalfEven_intCast, eq_comm, roundHalfEven_eq_iff]
  constructor
  · rintro near n rfl
    have up : round (n + 1 / 2 : ℚ) = n + 1 := by
      rw [round_eq_iff, Set.mem_Ico]
      push_cast
      constructor <;> linarith
    rw [up] at near
    have even : Even (n + 1) := near.elim (fun less => by norm_num [abs_lt] at less) And.right
    exact Int.not_even_iff_odd.mp (Int.even_add_one.mp even)
  · intro resolved
    have up := (round_eq_iff (x := q) (n := round q)).mp rfl
    obtain ⟨low, high⟩ := Set.mem_Ico.mp up
    refine .of_bounds ?_ (Or.inl high)
    rcases lt_or_eq_of_le low with less | same
    · exact Or.inl less
    · have odd := resolved (round q - 1) (by push_cast; linarith)
      exact Or.inr ⟨by rw [Int.even_iff]; rw [Int.odd_iff] at odd; omega, low⟩

theorem roundHalfEven_roundedTo_of_neg (negative : m < 0) :
    roundHalfEven (roundedTo m q) = roundHalfEven q ↔ (10 : ℤ) ^ m.natAbs ∣ roundHalfEven q := by
  obtain ⟨j, rfl⟩ : ∃ j : ℕ, m = -(j + 1 : ℕ) := ⟨m.natAbs - 1, by omega⟩
  have abs : (-((j + 1 : ℕ) : ℤ)).natAbs = j + 1 := by omega
  have whole : roundedTo (-((j + 1 : ℕ) : ℤ)) q =
      ((round (q * 10 ^ (-((j + 1 : ℕ) : ℤ))) * 10 ^ (j + 1) : ℤ) : ℚ) := by
    rw [roundedTo, div_eq_mul_inv, ← zpow_neg, neg_neg, zpow_natCast]
    push_cast
    rfl
  rw [whole, roundHalfEven_intCast, abs]
  constructor
  · exact fun same => Dvd.intro_left _ same
  · rintro ⟨c, same⟩
    have power : (10 : ℚ) ≤ 10 ^ (j + 1) := le_self_pow₀ (by norm_num) (Nat.succ_ne_zero j)
    have positive : (0 : ℚ) < 10 ^ (j + 1) := by positivity
    have error := (isHalfEven_roundHalfEven q).error_le
    rw [same] at error
    push_cast at error
    obtain ⟨low, high⟩ := abs_le.mp error
    have first : round (q * 10 ^ (-((j + 1 : ℕ) : ℤ))) = c := by
      rw [round_eq_iff, Set.mem_Ico, zpow_neg, zpow_natCast, ← div_eq_mul_inv,
        le_div_iff₀ positive, div_lt_iff₀ positive]
      constructor <;> linarith
    rw [first, same, mul_comm]

theorem roundHalfEven_roundedTo (m : ℤ) (q : ℚ) :
    roundHalfEven (roundedTo m q) = roundHalfEven q ↔ RoundsOnce m q := by
  rcases lt_trichotomy m 0 with negative | rfl | positive
  · rw [roundHalfEven_roundedTo_of_neg negative]
    exact ⟨fun zeros => ⟨fun above => absurd above negative.not_gt,
      fun zero => absurd zero negative.ne, fun _ => zeros⟩, fun once => once.zeros negative⟩
  · rw [roundHalfEven_roundedTo_zero]
    exact ⟨fun half => ⟨fun above => absurd above (lt_irrefl 0), fun _ => half,
      fun below => absurd below (lt_irrefl 0)⟩, fun once => once.half rfl⟩
  · rw [roundHalfEven_roundedTo_of_pos positive]
    exact ⟨fun tie => ⟨fun _ => tie, fun zero => absurd zero positive.ne',
      fun below => absurd below positive.not_gt⟩, fun once => once.tie positive⟩

/-! ## Counting digits -/

theorem log_div_pow (n : ℕ) : ∀ k, Nat.log 10 (n / 10 ^ k) = Nat.log 10 n - k
  | 0 => by rw [pow_zero, Nat.div_one, Nat.sub_zero]
  | k + 1 => by
    rw [pow_succ, ← Nat.div_div_eq_div_mul, Nat.log_div_base, log_div_pow n k, Nat.sub_sub]

theorem countDigits_succ (level n : ℕ) : countDigits (level + 1) n =
    if n < 10 ^ 2 ^ level then countDigits level n
    else 2 ^ level + countDigits level (n / 10 ^ 2 ^ level) := rfl

theorem countDigits_eq : ∀ (level : ℕ) {n : ℕ}, n < 10 ^ 2 ^ level →
    countDigits level n = Nat.log 10 n + 1
  | 0, n, few => by
    rw [pow_zero, pow_one] at few
    rw [Nat.log_of_lt few]
    rfl
  | level + 1, n, few => by
    rw [countDigits_succ]
    split
    case isTrue fewer => exact countDigits_eq level fewer
    case isFalse many =>
      have rest : n / 10 ^ 2 ^ level < 10 ^ 2 ^ level := by
        refine Nat.div_lt_of_lt_mul ?_
        rw [← pow_add, ← two_mul, ← pow_succ']
        exact few
      have long : 2 ^ level ≤ Nat.log 10 n := Nat.le_log_of_pow_le (by decide) (Nat.not_lt.mp many)
      rw [countDigits_eq level rest, log_div_pow]
      omega

/-- The level that digits are counted from is high enough. -/
theorem lt_pow_digitLevel (n : ℕ) : n < 10 ^ 2 ^ digitLevel n := by
  have bits : n.log2 < 2 ^ digitLevel n := Nat.lt_log2_self
  calc n < 2 ^ (n.log2 + 1) := Nat.lt_log2_self
    _ ≤ 2 ^ 2 ^ digitLevel n := Nat.pow_le_pow_right (by decide) bits
    _ ≤ 10 ^ 2 ^ digitLevel n := Nat.pow_le_pow_left (by decide) _

theorem digitCount_eq (n : ℕ) : digitCount n = Nat.log 10 n + 1 :=
  countDigits_eq _ (lt_pow_digitLevel n)

/-! ## The first quotient -/

variable {x y : ℕ}

/-- The shifted dividend reaches the divisor. -/
theorem le_mul_pow_shiftToReach (hx : 0 < x) (y : ℕ) : y ≤ x * 10 ^ shiftToReach x y := by
  unfold shiftToReach
  rw [digitCount_eq, digitCount_eq, Nat.add_sub_add_right]
  dsimp only
  split
  case isTrue reaches => exact reaches
  case isFalse =>
    have enough : Nat.log 10 y + 1 ≤ Nat.log 10 x + (Nat.log 10 y - Nat.log 10 x + 1) := by omega
    calc y ≤ 10 ^ (Nat.log 10 y + 1) := (Nat.lt_pow_succ_log_self (by decide) y).le
      _ ≤ 10 ^ (Nat.log 10 x + (Nat.log 10 y - Nat.log 10 x + 1)) :=
        Nat.pow_le_pow_right (by decide) enough
      _ = 10 ^ Nat.log 10 x * 10 ^ (Nat.log 10 y - Nat.log 10 x + 1) := pow_add ..
      _ ≤ x * 10 ^ (Nat.log 10 y - Nat.log 10 x + 1) :=
        Nat.mul_le_mul_right _ (Nat.pow_log_le_self 10 hx.ne')

/-- Shifted by less, it does not. -/
theorem mul_pow_lt_of_lt_shiftToReach (hy : 0 < y) {j : ℕ} (less : j < shiftToReach x y) :
    x * 10 ^ j < y := by
  unfold shiftToReach at less
  rw [digitCount_eq, digitCount_eq, Nat.add_sub_add_right] at less
  dsimp only at less
  split at less
  case isTrue =>
    have short : Nat.log 10 x + 1 + j ≤ Nat.log 10 y := by omega
    calc x * 10 ^ j < 10 ^ (Nat.log 10 x + 1) * 10 ^ j :=
        Nat.mul_lt_mul_of_pos_right (Nat.lt_pow_succ_log_self (by decide) x) (by positivity)
      _ = 10 ^ (Nat.log 10 x + 1 + j) := (pow_add ..).symm
      _ ≤ 10 ^ Nat.log 10 y := Nat.pow_le_pow_right (by decide) short
      _ ≤ y := Nat.pow_log_le_self 10 hy.ne'
  case isFalse fails =>
    refine Nat.lt_of_le_of_lt (Nat.mul_le_mul_left x ?_) (Nat.not_le.mp fails)
    exact Nat.pow_le_pow_right (by decide) (Nat.le_of_lt_succ less)

/-- The shift makes up for the zeros after the point of the exact quotient. -/
theorem shiftToReach_eq (hx : 0 < x) (hy : 0 < y) :
    shiftToReach x y = (-Int.log 10 (x / y : ℚ)).toNat := by
  have y' : (0 : ℚ) < y := by exact_mod_cast hy
  have iff (k : ℕ) : y ≤ x * 10 ^ k ↔ -(k : ℤ) ≤ Int.log 10 (x / y : ℚ) := by
    rw [← Int.zpow_le_iff_le_log (by decide) (by positivity), zpow_neg, zpow_natCast,
      le_div_iff₀ y', inv_mul_le_iff₀ (by positivity), mul_comm]
    norm_cast
  refine le_antisymm (Nat.le_of_not_lt fun less => ?_) ?_
  · have short := mul_pow_lt_of_lt_shiftToReach hy less
    exact Nat.not_le.mpr short ((iff _).mpr (by omega))
  · have reaches := (iff _).mp (le_mul_pow_shiftToReach hx y)
    omega

theorem log_mul_pow {r : ℚ} (positive : 0 < r) (k : ℕ) :
    Int.log 10 (r * 10 ^ k) = Int.log 10 r + k := by
  refine eq_of_forall_le_iff fun z => ?_
  rw [← Int.zpow_le_iff_le_log (by decide) (by positivity), ← sub_le_iff_le_add,
    ← Int.zpow_le_iff_le_log (by decide) positive]
  push_cast
  rw [zpow_sub₀ (by norm_num), zpow_natCast, div_le_iff₀ (by positivity)]

/-- The integer quotient after the shift has the digits of the exact one before the point, or one.
-/
theorem log_shifted (hx : 0 < x) (hy : 0 < y) :
    Nat.log 10 (x * 10 ^ shiftToReach x y / y) = (Int.log 10 (x / y : ℚ)).toNat := by
  have y' : (0 : ℚ) < y := by exact_mod_cast hy
  have reaches : (1 : ℚ) ≤ ((x * 10 ^ shiftToReach x y : ℕ) : ℚ) / y := by
    rw [one_le_div₀ y']
    exact_mod_cast le_mul_pow_shiftToReach hx y
  have shifted : Int.log 10 (((x * 10 ^ shiftToReach x y : ℕ) : ℚ) / y) =
      Int.log 10 (x / y : ℚ) + shiftToReach x y := by
    rw [← log_mul_pow (by positivity), div_mul_eq_mul_div]
    push_cast
    rfl
  have shift := shiftToReach_eq hx hy
  rw [Int.log_of_one_le_right 10 reaches, Nat.floor_div_eq_div] at shifted
  omega

/-- How many digits after the point the quotient `x / y` is computed to. -/
def quotientPlaces (x y : ℕ) : ℕ := (quotientDigits - 1 - Int.log 10 (x / y : ℚ)).toNat

theorem places_eq (hx : 0 < x) (hy : 0 < y) : shiftToReach x y +
    (quotientDigits - digitCount (x * 10 ^ shiftToReach x y / y)) = quotientPlaces x y := by
  rw [digitCount_eq, log_shifted hx hy, shiftToReach_eq hx hy, quotientPlaces, quotientDigits]
  omega

/-- The next digit tells how the quotient is rounded. -/
theorem round_div (n : ℕ) (hy : 0 < y) :
    round (n / y : ℚ) = ((n / y + if 5 ≤ n % y * 10 / y then 1 else 0 : ℕ) : ℤ) := by
  have y' : (0 : ℚ) < y := by exact_mod_cast hy
  have half : 5 ≤ n % y * 10 / y ↔ (y : ℚ) ≤ 2 * (n % y : ℕ) := by
    rw [Nat.le_div_iff_mul_le hy]
    norm_cast
    omega
  have parts : (n : ℚ) = y * (n / y : ℕ) + (n % y : ℕ) := by
    exact_mod_cast (Nat.div_add_mod n y).symm
  have rest : ((n % y : ℕ) : ℚ) < y := by exact_mod_cast Nat.mod_lt n hy
  have positive : (0 : ℚ) ≤ (n % y : ℕ) := Nat.cast_nonneg _
  simp only [half]
  rw [round_eq_iff, Set.mem_Ico, le_div_iff₀ y', div_lt_iff₀ y', parts]
  generalize n / y = d at *
  generalize n % y = r at *
  split
  case isTrue up =>
    push_cast
    constructor <;> linarith
  case isFalse down =>
    push_cast
    constructor <;> linarith

/-- The first quotient is the exact one, rounded at the last place it is computed to. -/
theorem quotient_eq (hx : 0 < x) (hy : 0 < y) :
    quotient x y = ⟨round (x / y * 10 ^ quotientPlaces x y : ℚ), quotientPlaces x y⟩ := by
  have exact : (x / y * 10 ^ quotientPlaces x y : ℚ) =
      ((x * 10 ^ shiftToReach x y *
        10 ^ (quotientDigits - digitCount (x * 10 ^ shiftToReach x y / y)) : ℕ) : ℚ) / y := by
    rw [← places_eq hx hy, pow_add]
    push_cast
    ring
  rw [exact, round_div _ hy, ← places_eq hx hy]
  rfl

/-! ## The second quotient -/

theorem divHalfEven_eq (n : ℕ) (hy : 0 < y) :
    (divHalfEven n y : ℤ) = roundHalfEven (n / y : ℚ) := by
  have y' : (0 : ℚ) < y := by exact_mod_cast hy
  have parts : (n / y : ℚ) = (n / y : ℕ) + (n % y : ℕ) / y := by
    rw [div_eq_iff y'.ne', add_mul, div_mul_cancel₀ _ y'.ne', mul_comm]
    exact_mod_cast (Nat.div_add_mod n y).symm
  have floor : ⌊(n / y : ℚ)⌋ = (n / y : ℕ) := Rat.floor_natCast_div_natCast n y
  have less : (n / y : ℚ) - ((n / y : ℕ) : ℤ) < 1 / 2 ↔ 2 * (n % y) < y := by
    rw [parts, Int.cast_natCast, add_sub_cancel_left, div_lt_div_iff₀ y' two_pos]
    norm_cast
    omega
  have more : 1 / 2 < (n / y : ℚ) - ((n / y : ℕ) : ℤ) ↔ y < 2 * (n % y) := by
    rw [parts, Int.cast_natCast, add_sub_cancel_left, div_lt_div_iff₀ two_pos y']
    norm_cast
    omega
  rw [roundHalfEven, floor]
  simp only [less, more, divHalfEven]
  split
  case isTrue => rfl
  case isFalse =>
    split
    case isTrue => rfl
    case isFalse => norm_cast

theorem natCast_pow10 {k : ℤ} (nonneg : 0 ≤ k) : ((pow10 k : ℕ) : ℚ) = 10 ^ k := by
  obtain ⟨j, rfl⟩ := Int.eq_ofNat_of_zero_le nonneg
  rw [pow10, Int.toNat_natCast, zpow_natCast]
  exact Nat.cast_pow 10 j

/-- What has fewer digits than are dropped is less than half of a unit. -/
theorem roundHalfEven_of_few {n : ℕ} {k : ℤ} (few : digitCount n < k) :
    roundHalfEven (n / 10 ^ k) = 0 := by
  have power := pow_ten_pos k
  have small : (n : ℚ) < 10 ^ (k - 1) := by
    calc (n : ℚ) < 10 ^ (Nat.log 10 n + 1) := by
          exact_mod_cast Nat.lt_pow_succ_log_self (by decide) n
      _ = 10 ^ ((digitCount n : ℕ) : ℤ) := by rw [digitCount_eq, zpow_natCast]
      _ ≤ 10 ^ (k - 1) := zpow_le_zpow_right₀ (by norm_num) (by omega)
  rw [zpow_sub_one₀ (by norm_num)] at small
  have nonneg : (0 : ℚ) ≤ n := Nat.cast_nonneg n
  refine roundHalfEven_eq_iff.mpr (Or.inl ?_)
  rw [Int.cast_zero, sub_zero, abs_of_nonneg (by positivity), div_lt_iff₀ power]
  linarith

/-- At its new scale a decimal is as near to its value as it can be; a half goes to the even
neighbour. -/
theorem atScale_eq {d : Decimal} (nonneg : 0 ≤ d.digits) (scale : ℤ) :
    d.atScale scale = ⟨roundHalfEven (d.digits / 10 ^ (d.scale - scale)), scale⟩ := by
  obtain ⟨digits, own⟩ := d
  obtain ⟨n, rfl⟩ := Int.eq_ofNat_of_zero_le nonneg
  unfold atScale
  dsimp only
  rw [Int.natAbs_natCast]
  split
  case isTrue longer =>
    have whole : (((n : ℤ) : ℚ) / 10 ^ (own - scale)) = ((n * pow10 (scale - own) : ℤ) : ℚ) := by
      rw [← neg_sub, zpow_neg, div_inv_eq_mul]
      push_cast
      rw [natCast_pow10 (by omega)]
    rw [whole, roundHalfEven_intCast, digitsAt]
    split
    case isTrue zero =>
      dsimp only at zero
      rw [zero, zero_mul]
    case isFalse => rfl
  case isFalse shorter =>
    split
    case isTrue few => rw [Int.cast_natCast, roundHalfEven_of_few few]
    case isFalse =>
      have power : 0 < pow10 (own - scale) := Nat.pow_pos (by decide)
      rw [divHalfEven_eq n power, natCast_pow10 (by omega), Int.cast_natCast]

/-! ## Division -/

/-- The exact quotient, in units of the last place of the dividend. -/
def exactQuotient (a b : Decimal) : ℚ := a.value / b.value * 10 ^ a.scale

/-- How many places after the last one of the dividend the first quotient has. -/
def guardPlaces (a b : Decimal) : ℤ := quotientPlaces a.digits.natAbs b.digits.natAbs - b.scale

variable {a b : Decimal}

theorem sign_mul_sign (ha : a.digits ≠ 0) (hb : b.digits ≠ 0) :
    a.digits.sign * b.digits.sign = 1 ∨ a.digits.sign * b.digits.sign = -1 := by
  rcases lt_or_gt_of_ne ha with below | above <;> rcases lt_or_gt_of_ne hb with below' | above' <;>
    simp [Int.sign_eq_one_of_pos, Int.sign_eq_neg_one_of_neg, *]

theorem exactQuotient_eq (a : Decimal) (hb : b.digits ≠ 0) : exactQuotient a b =
    (a.digits.sign * b.digits.sign : ℤ) * (a.digits.natAbs / b.digits.natAbs * 10 ^ b.scale) := by
  have scales : exactQuotient a b = a.digits / b.digits * 10 ^ b.scale := by
    rw [exactQuotient, value, value, zpow_neg, zpow_neg]
    field_simp
  have parts (n : ℤ) : (n : ℚ) = n.sign * n.natAbs := by
    rw [← Int.cast_natCast, ← Int.cast_mul, Int.sign_mul_natAbs]
  have inverse : ((b.digits.sign : ℤ) : ℚ)⁻¹ = b.digits.sign := by
    rcases lt_or_gt_of_ne hb with below | above
    · rw [Int.sign_eq_neg_one_of_neg below]
      norm_num
    · rw [Int.sign_eq_one_of_pos above]
      norm_num
  rw [scales, parts a.digits, parts b.digits, mul_div_mul_comm,
    div_eq_mul_inv (a.digits.sign : ℚ), inverse]
  push_cast
  ring

theorem abs_exactQuotient (ha : a.digits ≠ 0) (hb : b.digits ≠ 0) :
    |exactQuotient a b| = a.digits.natAbs / b.digits.natAbs * 10 ^ b.scale := by
  have nonneg : (0 : ℚ) ≤ a.digits.natAbs / b.digits.natAbs * 10 ^ b.scale :=
    mul_nonneg (div_nonneg (Nat.cast_nonneg _) (Nat.cast_nonneg _)) (pow_ten_pos _).le
  rw [exactQuotient_eq a hb, abs_mul, abs_of_nonneg nonneg]
  rcases sign_mul_sign ha hb with plus | minus
  · rw [plus, Int.cast_one, abs_one, one_mul]
  · rw [minus, Int.cast_neg, Int.cast_one, abs_neg, abs_one, one_mul]

/-- Signs are set aside. -/
theorem roundHalfEven_exactQuotient (ha : a.digits ≠ 0) (hb : b.digits ≠ 0) :
    roundHalfEven (exactQuotient a b) =
      a.digits.sign * b.digits.sign * roundHalfEven |exactQuotient a b| := by
  rw [abs_exactQuotient ha hb, exactQuotient_eq a hb]
  rcases sign_mul_sign ha hb with plus | minus
  · rw [plus, Int.cast_one, one_mul, one_mul]
  · rw [minus, Int.cast_neg, Int.cast_one, neg_one_mul, neg_one_mul, roundHalfEven_neg]

theorem value_of_isOne (one : b.isOne = true) : b.value = 1 := by
  rw [isOne, Bool.and_eq_true, Bool.and_eq_true, decide_eq_true_eq, beq_iff_eq] at one
  obtain ⟨⟨nonneg, _⟩, digits⟩ := one
  rw [value, digits, Int.cast_natCast, natCast_pow10 nonneg, ← zpow_add₀ (by norm_num),
    add_neg_cancel, zpow_zero]

/-- Without a shortcut a quotient is rounded twice. -/
theorem divide_eq (ha : a.digits ≠ 0) (hb : b.digits ≠ 0) (one : ¬b.isOne = true) :
    a.divide b = ⟨a.digits.sign * b.digits.sign *
      roundHalfEven (roundedTo (guardPlaces a b) |exactQuotient a b|), a.scale⟩ := by
  have hx := Int.natAbs_pos.mpr ha
  have hy := Int.natAbs_pos.mpr hb
  have first : (a.digits.natAbs / b.digits.natAbs *
      10 ^ quotientPlaces a.digits.natAbs b.digits.natAbs : ℚ) =
        |exactQuotient a b| * 10 ^ guardPlaces a b := by
    rw [abs_exactQuotient ha hb, mul_assoc, ← zpow_add₀ (by norm_num), guardPlaces,
      add_sub_cancel, zpow_natCast]
  have nonneg : 0 ≤ round (|exactQuotient a b| * 10 ^ guardPlaces a b) := by
    rw [round_eq]
    exact Int.floor_nonneg.mpr
      (add_nonneg (mul_nonneg (abs_nonneg _) (pow_ten_pos _).le) one_half_pos.le)
  have places : quotientPlaces a.digits.natAbs b.digits.natAbs + (a.scale - b.scale) - a.scale =
      guardPlaces a b := by
    rw [guardPlaces]
    ring
  rw [divide, if_neg (not_or.mpr ⟨ha, one⟩), quotient_eq hx hy, first]
  dsimp only
  rw [atScale_eq nonneg, places, roundedTo]

/-- A quotient has the scale of its dividend. -/
theorem scale_divide (a b : Decimal) : (a.divide b).scale = a.scale := by
  unfold divide
  split <;> rfl

/-- The shortcuts are exact. -/
theorem divide_eq_self (shortcut : a.digits = 0 ∨ b.isOne = true) :
    a.divide b = a ∧ roundHalfEven (exactQuotient a b) = a.digits := by
  refine ⟨by rw [divide, if_pos shortcut], ?_⟩
  have whole : exactQuotient a b = (a.digits : ℤ) := by
    rcases shortcut with zero | one
    · rw [exactQuotient, value, zero, Int.cast_zero, zero_mul, zero_div, zero_mul]
    · rw [exactQuotient, value_of_isOne one, div_one, value, mul_assoc, ← zpow_add₀ (by norm_num),
        neg_add_cancel, zpow_zero, mul_one]
  rw [whole, roundHalfEven_intCast]

theorem divide_eq_iff_roundsOnce (ha : a.digits ≠ 0) (hb : b.digits ≠ 0) (one : ¬b.isOne = true) :
    a.divide b = ⟨roundHalfEven (exactQuotient a b), a.scale⟩ ↔
      RoundsOnce (guardPlaces a b) |exactQuotient a b| := by
  have unit : a.digits.sign * b.digits.sign ≠ 0 := by
    rcases sign_mul_sign ha hb with plus | minus <;> simp [*]
  rw [divide_eq ha hb one, roundHalfEven_exactQuotient ha hb, ← roundHalfEven_roundedTo, mk.injEq]
  constructor
  · exact fun same => mul_left_cancel₀ unit same.1
  · exact fun same => ⟨by rw [same], rfl⟩

/-- When a quotient is the exact one, rounded once at the scale of the dividend. -/
theorem divide_eq_roundHalfEven_iff (a b : Decimal) (nonzero : b.digits ≠ 0) :
    (a.divide b).scale = a.scale ∧
      (a.divide b = ⟨roundHalfEven (exactQuotient a b), a.scale⟩ ↔
        a.digits = 0 ∨ b.isOne = true ∨ RoundsOnce (guardPlaces a b) |exactQuotient a b|) := by
  refine ⟨scale_divide a b, ?_⟩
  rw [← or_assoc]
  by_cases shortcut : a.digits = 0 ∨ b.isOne = true
  · obtain ⟨same, exact⟩ := divide_eq_self shortcut
    rw [same, exact]
    exact ⟨fun _ => Or.inl shortcut, fun _ => rfl⟩
  · obtain ⟨ha, one⟩ := not_or.mp shortcut
    rw [or_iff_right shortcut]
    exact divide_eq_iff_roundsOnce ha nonzero one

/-- A third of `1.0`. -/
theorem divide_eq_roundHalfEven_iff_third : (30 : ℤ) ≠ 0 ∧ divide ⟨10, 1⟩ ⟨30, 1⟩ = ⟨3, 1⟩ ∧
    RoundsOnce (guardPlaces ⟨10, 1⟩ ⟨30, 1⟩) |exactQuotient ⟨10, 1⟩ ⟨30, 1⟩| := by
  have quotient : divide ⟨10, 1⟩ ⟨30, 1⟩ = ⟨3, 1⟩ := by decide +kernel
  have exact : roundHalfEven (exactQuotient ⟨10, 1⟩ ⟨30, 1⟩) = 3 := by
    rw [roundHalfEven_eq_iff]
    left
    norm_num [exactQuotient, value, abs_lt]
  obtain ⟨_, iff⟩ := divide_eq_roundHalfEven_iff ⟨10, 1⟩ ⟨30, 1⟩ (by decide)
  rcases iff.mp (by rw [quotient, exact]) with zero | one | once
  · cases zero
  · cases one
  · exact ⟨by decide, quotient, once⟩

/-- A third of `1e101` lacks its last digit: the first quotient has a hundred of them. And a
quotient a little above one half is rounded to one half first, and then down. -/
theorem divide_ne_roundHalfEven :
    (divide ⟨1, 0⟩ ⟨3, 101⟩ = ⟨(10 ^ 100 - 1) / 3 * 10, 0⟩ ∧
      roundHalfEven (exactQuotient ⟨1, 0⟩ ⟨3, 101⟩) = (10 ^ 101 - 1) / 3 ∧
      divide ⟨1, 0⟩ ⟨3, 101⟩ ≠ ⟨roundHalfEven (exactQuotient ⟨1, 0⟩ ⟨3, 101⟩), 0⟩) ∧
    (divide ⟨5 * 10 ^ 100 + 1, 0⟩ ⟨10 ^ 101 + 1, 0⟩ = ⟨0, 0⟩ ∧
      roundHalfEven (exactQuotient ⟨5 * 10 ^ 100 + 1, 0⟩ ⟨10 ^ 101 + 1, 0⟩) = 1) := by
  have short : divide ⟨1, 0⟩ ⟨3, 101⟩ = ⟨(10 ^ 100 - 1) / 3 * 10, 0⟩ := by decide +kernel
  have long : roundHalfEven (exactQuotient ⟨1, 0⟩ ⟨3, 101⟩) = (10 ^ 101 - 1) / 3 := by
    rw [roundHalfEven_eq_iff]
    left
    norm_num [exactQuotient, value, abs_lt]
  refine ⟨⟨short, long, ?_⟩, by decide +kernel, ?_⟩
  · rw [short, long, ne_eq, mk.injEq]
    norm_num
  · rw [roundHalfEven_eq_iff]
    left
    norm_num [exactQuotient, value, abs_lt]

/-! ### Room -/

/-- A fraction with a smaller denominator than the first rounding resolves is on a tie itself, if it
is rounded to one. -/
theorem RoundsOnce.of_fraction {k : ℤ} (hy : 0 < y) (room : (y : ℚ) < 10 ^ m) :
    RoundsOnce m (k / y) := by
  have power := pow_ten_pos m
  have y' : (0 : ℚ) < y := by exact_mod_cast hy
  have positive : 0 < m := by
    by_contra nonpos
    have unit : (1 : ℚ) ≤ y := by exact_mod_cast hy
    have small : (10 : ℚ) ^ m ≤ 1 := zpow_le_one_of_nonpos₀ (by norm_num) (not_lt.mp nonpos)
    linarith
  refine ⟨fun _ n tie => ?_, fun zero => absurd zero positive.ne',
    fun below => absurd below positive.not_gt⟩
  have error : |(k / y - (n + 1 / 2) : ℚ)| * 10 ^ m ≤ 1 / 2 := by
    have rounded : ((round (k / y * 10 ^ m : ℚ) : ℤ) : ℚ) = (n + 1 / 2) * 10 ^ m := by
      rw [← tie, roundedTo, div_mul_cancel₀ _ power.ne']
    have near := abs_sub_round (k / y * 10 ^ m : ℚ)
    rw [rounded, ← sub_mul, abs_mul, abs_of_pos power] at near
    exact near
  -- Over the common denominator the distance to the tie is an integer, and less than one.
  have whole : (k / y - (n + 1 / 2) : ℚ) * (2 * y) = ((2 * k - (2 * n + 1) * y : ℤ) : ℚ) := by
    push_cast
    field_simp
  have less : |((2 * k - (2 * n + 1) * y : ℤ) : ℚ)| < 1 := by
    rw [← whole, abs_mul, abs_of_pos (by linarith : (0 : ℚ) < 2 * y)]
    by_contra far
    have apart : 0 < |(k / y - (n + 1 / 2) : ℚ)| := by
      refine lt_of_le_of_ne (abs_nonneg _) fun zero => far ?_
      rw [← zero, zero_mul]
      exact one_pos
    have closer := mul_lt_mul_of_pos_left room apart
    linarith
  have zero : 2 * k - (2 * n + 1) * y = 0 := Int.abs_lt_one_iff.mp (by exact_mod_cast less)
  have here : (k / y : ℚ) = n + 1 / 2 := by
    rw [zero, Int.cast_zero, mul_eq_zero, sub_eq_zero] at whole
    exact whole.resolve_right (by linarith)
  exact (Int.even_or_odd n).imp (fun even => ⟨even, here.le⟩) fun odd => ⟨odd, here.ge⟩

/-- With a divisor that has no zeros before its point, and fewer digits than there are places to
spare, a quotient is the exact one, rounded once. -/
theorem divide_eq_of_room (hb : b.digits ≠ 0) (places : 0 ≤ b.scale)
    (room : (b.digits.natAbs : ℚ) < 10 ^ guardPlaces a b) :
    a.divide b = ⟨roundHalfEven (exactQuotient a b), a.scale⟩ := by
  by_cases shortcut : a.digits = 0 ∨ b.isOne = true
  · obtain ⟨same, exact⟩ := divide_eq_self shortcut
    rw [same, exact]
  · obtain ⟨ha, one⟩ := not_or.mp shortcut
    have fractional : |exactQuotient a b| =
        ((a.digits.natAbs * pow10 b.scale : ℕ) : ℤ) / b.digits.natAbs := by
      rw [abs_exactQuotient ha hb, div_mul_eq_mul_div, ← natCast_pow10 places, Int.cast_natCast,
        Nat.cast_mul]
    rw [divide_eq_iff_roundsOnce ha hb one, fractional]
    exact .of_fraction (Int.natAbs_pos.mpr hb) room

end Decimal

end GradualScript
