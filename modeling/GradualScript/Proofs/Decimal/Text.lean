/-
# GradualScript.Proofs.Decimal.Text -- decimals that are written and read again

Each of the three forms of a decimal is read back to its digits and its scale, with two exceptions
that have no form of their own: a zero is written as `0`, whatever its scale, and up to fifteen
zeros before the point are written out. What comes back (`Decimal.reread`) is the same number in any
case, and is written the same again.

The texts are runs of digits with a sign, a point and an exponent put in, so the proofs follow the
reader: it parts a text at the exponent, then at the point, and reads what is left as integers.
-/

import GradualScript.Decimal.Text
import Mathlib.Algebra.Field.Rat
import Mathlib.Data.List.TakeDrop
import Mathlib.Data.List.TakeWhile
import Mathlib.Tactic.Common

namespace GradualScript

/-! ## Integers -/

namespace Numeral

/-- A run of digits. -/
def Digits (cs : List Char) : Prop := ∀ c ∈ cs, c.isDigit = true

theorem Digits.toDigits (n : Nat) : Digits (Nat.toDigits 10 n) :=
  fun _ mem => Nat.isDigit_of_mem_toDigits (by decide) (by decide) mem

theorem Digits.zeros (n : Nat) : Digits (List.replicate n '0') := fun c mem => by
  rw [List.eq_of_mem_replicate mem]
  rfl

theorem Digits.append {cs ds : List Char} (first : Digits cs) (second : Digits ds) :
    Digits (cs ++ ds) := fun c mem => (List.mem_append.mp mem).elim (first c) (second c)

theorem Digits.of_append {cs ds : List Char} (both : Digits (cs ++ ds)) : Digits cs ∧ Digits ds :=
  ⟨fun c mem => both c (List.mem_append_left _ mem), fun c mem =>
    both c (List.mem_append_right _ mem)⟩

/-- Digits are no other characters. -/
theorem Digits.not_mem {cs : List Char} (digits : Digits cs) {c : Char}
    (other : c.isDigit = false) : c ∉ cs :=
      fun mem => Bool.false_ne_true (other.symm.trans (digits c mem))

theorem digit?_of_isDigit {c : Char} (digit : c.isDigit = true) :
    digit? c = some (c.toNat - '0'.toNat) := by
  rw [Char.isDigit, Bool.and_eq_true, decide_eq_true_eq, decide_eq_true_eq] at digit
  exact if_pos digit

/-- Digits are read as positions of base ten, whatever has been read before them. -/
theorem continueDigits_eq : ∀ {cs : List Char} (value : Nat), Digits cs →
    continueDigits value cs = some (Nat.ofDigitChars 10 cs value)
  | [], value, _ => by rw [continueDigits, Nat.ofDigitChars_nil]
  | c :: cs, value, digits => by
    have first : c.isDigit = true := digits c List.mem_cons_self
    have apart : c = '_' → False := by
      rintro rfl
      cases first
    rw [continueDigits, digit?_of_isDigit first, Nat.ofDigitChars_cons]
    · exact continueDigits_eq _ fun d mem => digits d (List.mem_cons_of_mem _ mem)
    · exact apart

theorem magnitude?_eq {cs : List Char} (digits : Digits cs) (some : cs ≠ []) :
    magnitude? cs = .some (Nat.ofDigitChars 10 cs 0) := by
  cases cs with
  | nil => exact (some rfl).elim
  | cons c cs =>
    have first : c.isDigit = true := digits c List.mem_cons_self
    rw [magnitude?, digit?_of_isDigit first, Option.bind_some,
      continueDigits_eq _ fun d mem => digits d (List.mem_cons_of_mem _ mem), Nat.ofDigitChars_cons,
      Nat.mul_zero, Nat.zero_add]

/-- The sign of a negative number. -/
def minus (negative : Bool) : List Char := if negative then ['-'] else []

/-- A number with the sign that goes with `minus`. -/
def signed (negative : Bool) (n : Nat) : Int := if negative then -(n : Int) else n

/-- An integer is read by its sign and its digits. -/
theorem integer?_minus (negative : Bool) {cs : List Char} (digits : Digits cs) (some : cs ≠ []) :
    integer? (minus negative ++ cs) = .some (signed negative (Nat.ofDigitChars 10 cs 0)) := by
  cases negative with
  | true =>
    show (magnitude? cs).map (fun n => -(n : Int)) = _
    rw [magnitude?_eq digits some]
    rfl
  | false =>
    have plain : integer? cs = (magnitude? cs).map Int.ofNat := by
      rw [integer?]
      · rintro ds rfl
        cases digits '-' List.mem_cons_self
      · rintro ds rfl
        cases digits '+' List.mem_cons_self
    show integer? cs = _
    rw [plain, magnitude?_eq digits some]
    rfl

theorem integer?_toDigits (negative : Bool) (n : Nat) :
    integer? (minus negative ++ Nat.toDigits 10 n) = some (signed negative n) := by
  rw [integer?_minus negative (.toDigits n) Nat.toDigits_ne_nil, Nat.ofDigitChars_ten_toDigits]

theorem plainInteger?_minus (n : Nat) :
    plainInteger? ('-' :: Nat.toDigits 10 n) = some (-(n : Int)) := by
  have none : ('-' :: Nat.toDigits 10 n).contains '_' = false := by
    simp [Nat.underscore_not_in_toDigits]
  rw [plainInteger?, none]
  exact integer?_toDigits true n

theorem plainInteger?_plus (n : Nat) :
    plainInteger? ('+' :: Nat.toDigits 10 n) = some (n : Int) := by
  have none : ('+' :: Nat.toDigits 10 n).contains '_' = false := by
    simp [Nat.underscore_not_in_toDigits]
  rw [plainInteger?, none]
  show (magnitude? (Nat.toDigits 10 n)).map Int.ofNat = _
  rw [magnitude?_eq (.toDigits n) Nat.toDigits_ne_nil, Nat.ofDigitChars_ten_toDigits]
  rfl

/-- An integer is read back from its text. -/
theorem integer?_toString (n : Int) : integer? (toString n).toList = some n := by
  cases n with
  | ofNat n =>
    show integer? (toString n).toList = _
    rw [Nat.toString_eq_ofList_toDigits, String.toList_ofList]
    exact integer?_toDigits false n
  | negSucc n =>
    show integer? ("-" ++ toString (n + 1)).toList = _
    rw [String.toList_append, Nat.toString_eq_ofList_toDigits, String.toList_ofList,
      String.toList_ofList]
    exact integer?_toDigits true (n + 1)

/-- A text of digits with a sign holds no other characters. -/
theorem not_mem_minus_append {negative : Bool} {cs : List Char} (digits : Digits cs) {c : Char}
    (other : c.isDigit = false) (unsigned : c ≠ '-') : c ∉ minus negative ++ cs := by
  rw [List.mem_append, not_or]
  refine ⟨?_, digits.not_mem other⟩
  cases negative with
  | true => exact fun mem => unsigned (List.mem_singleton.mp mem)
  | false => exact List.not_mem_nil

theorem signed_mul (negative : Bool) (n k : Nat) :
    signed negative (n * k) = signed negative n * k := by
  cases negative with
  | true =>
    show -((n * k : Nat) : Int) = -(n : Int) * k
    rw [Int.natCast_mul, Int.neg_mul]
  | false => exact Int.natCast_mul n k

theorem signed_natAbs (n : Int) : signed (decide (n < 0)) n.natAbs = n := by
  unfold signed
  split <;> rename_i sign <;> rw [decide_eq_true_eq] at sign <;> omega

end Numeral

/-! ## Reading by parts -/

namespace Decimal

open Numeral

/-- A list of which the first element to stop at is known. -/
theorem span_append_cons {p : Char → Bool} {cs rest : List Char} {c : Char}
    (all : ∀ c ∈ cs, p c = true) (stop : ¬p c = true) :
    (cs ++ c :: rest).span p = (cs, c :: rest) := by
  rw [List.span_eq_takeWhile_dropWhile, List.takeWhile_append_of_pos all,
    List.dropWhile_append_of_pos all, List.takeWhile_cons_of_neg stop,
    List.dropWhile_cons_of_neg stop, List.append_nil]

theorem span_of_all {p : Char → Bool} {cs : List Char} (all : ∀ c ∈ cs, p c = true) :
    cs.span p = (cs, []) := by
  rw [List.span_eq_takeWhile_dropWhile, List.takeWhile_eq_self_iff.mpr all,
    List.dropWhile_eq_nil_iff.mpr all]

/-- A text without a mark of an exponent. -/
def Unmarked (cs : List Char) : Prop := 'e' ∉ cs ∧ 'E' ∉ cs

theorem Unmarked.all {cs : List Char} (unmarked : Unmarked cs) :
    ∀ c ∈ cs, (c != 'e' && c != 'E') = true := fun c mem => by
  rw [Bool.and_eq_true, bne_iff_ne, bne_iff_ne]
  exact ⟨fun same => unmarked.1 (same ▸ mem), fun same => unmarked.2 (same ▸ mem)⟩

theorem splitExponent_of_unmarked {cs : List Char} (unmarked : Unmarked cs) :
    splitExponent cs = (cs, none) := by
  rw [splitExponent, span_of_all unmarked.all]

theorem splitExponent_append {cs rest : List Char} {e : Char} (unmarked : Unmarked cs)
    (mark : e = 'e' ∨ e = 'E') : splitExponent (cs ++ e :: rest) = (cs, some rest) := by
  rw [splitExponent, span_append_cons unmarked.all]
  rcases mark with rfl | rfl <;> decide

theorem splitPoint_of_not_mem {cs : List Char} (none : '.' ∉ cs) : splitPoint cs = (cs, 0) := by
  have all : ∀ c ∈ cs, (c != '.') = true := fun c mem =>
    bne_iff_ne.mpr fun same => none (same ▸ mem)
  rw [splitPoint, span_of_all all]

/-- The point is found, and the number of digits after it counted. -/
theorem splitPoint_append {whole places : List Char} (none : '.' ∉ whole) (digits : Digits places) :
    splitPoint (whole ++ '.' :: places) = (whole ++ places, places.length) := by
  have all : ∀ c ∈ whole, (c != '.') = true := fun c mem =>
    bne_iff_ne.mpr fun same => none (same ▸ mem)
  have counted : places.filter (· != '_') = places := List.filter_eq_self.mpr fun c mem =>
    bne_iff_ne.mpr fun same => digits.not_mem (c := '_') rfl (same ▸ mem)
  rw [splitPoint, span_append_cons all (by decide)]
  show (whole ++ places, (places.filter (· != '_')).length) = _
  rw [counted]

theorem unmarked_minus_append (negative : Bool) {cs : List Char} (digits : Digits cs) :
    Unmarked (minus negative ++ cs) :=
  ⟨not_mem_minus_append digits rfl (by decide), not_mem_minus_append digits rfl (by decide)⟩

/-- What stands before the exponent: the digits of an integer, with the point before the last
`places` of them. -/
structure Mantissa (cs : List Char) (digits : Int) (places : Nat) : Prop where
  unmarked : Unmarked cs
  read : ∃ text, splitPoint cs = (text, places) ∧ integer? text = some digits

namespace Mantissa

variable {cs whole places text : List Char} {digits exponent : Int} {count : Nat}

theorem ofWhole (negative : Bool) (isDigits : Digits whole) (some : whole ≠ []) :
    Mantissa (minus negative ++ whole) (signed negative (Nat.ofDigitChars 10 whole 0)) 0 where
  unmarked := unmarked_minus_append negative isDigits
  read := ⟨_, splitPoint_of_not_mem (not_mem_minus_append isDigits rfl (by decide)),
    integer?_minus negative isDigits some⟩

theorem ofPoint (negative : Bool) (isDigits : Digits (whole ++ places))
    (some : whole ++ places ≠ []) :
    Mantissa (minus negative ++ (whole ++ '.' :: places))
      (signed negative (Nat.ofDigitChars 10 (whole ++ places) 0)) places.length := by
  obtain ⟨before, behind⟩ := isDigits.of_append
  have pointless : '.' ∉ minus negative ++ whole := not_mem_minus_append before rfl (by decide)
  have unmarked := unmarked_minus_append negative before
  rw [← List.append_assoc]
  refine ⟨⟨?_, ?_⟩, _, splitPoint_append pointless behind, ?_⟩
  · rw [List.mem_append, List.mem_cons, not_or, not_or]
    exact ⟨unmarked.1, by decide, behind.not_mem rfl⟩
  · rw [List.mem_append, List.mem_cons, not_or, not_or]
    exact ⟨unmarked.2, by decide, behind.not_mem rfl⟩
  · rw [List.append_assoc]
    exact integer?_minus negative isDigits some

/-- A text without an exponent has its places for a scale. -/
theorem ofChars? (mantissa : Mantissa cs digits count) (range : scaleInRange count = true) :
    Decimal.ofChars? cs = some ⟨digits, count⟩ := by
  obtain ⟨text, pointed, read⟩ := mantissa.read
  simp only [Decimal.ofChars?, splitExponent_of_unmarked mantissa.unmarked, pointed, read, bind,
    Option.bind_some, sub_zero, range, if_true]

/-- An exponent lowers the scale by as much as it says. -/
theorem ofChars?_exponent (mantissa : Mantissa cs digits count) {e : Char}
    (mark : e = 'e' ∨ e = 'E') (power : plainInteger? text = some exponent) {scale : Int}
    (same : count - exponent = scale) (range : scaleInRange scale = true) :
    Decimal.ofChars? (cs ++ e :: text) = some ⟨digits, scale⟩ := by
  subst same
  obtain ⟨_, pointed, read⟩ := mantissa.read
  simp only [Decimal.ofChars?, splitExponent_append mantissa.unmarked mark, power, pointed, read,
    bind, Option.bind_some, range, if_true]

end Mantissa

/-! ## Writing and reading -/

/-- What a decimal is read as after it has been written. -/
def reread (d : Decimal) : Decimal :=
  if d.digits = 0 then ⟨0, 0⟩
  else if -trailingZeros ≤ d.scale ∧ d.scale < 0 then ⟨d.digits * 10 ^ d.scale.natAbs, 0⟩
  else d

section Forms

variable {negative : Bool} {n : Nat} {scale : Int}

/-- The form with a digit before the point, for numbers that are small beside their scale. -/
theorem ofChars?_scientific (many : ((Nat.toDigits 10 n).length : Int) - 1 < scale)
    (range : scaleInRange scale = true) :
    ofChars? (minus negative ++ scientific (Nat.toDigits 10 n) scale) =
      some ⟨signed negative n, scale⟩ := by
  have isDigits := Digits.toDigits n
  have value : Nat.ofDigitChars 10 (Nat.toDigits 10 n) 0 = n := Nat.ofDigitChars_ten_toDigits
  have some : Nat.toDigits 10 n ≠ [] := Nat.toDigits_ne_nil
  generalize Nat.toDigits 10 n = ds at isDigits value some many
  have below : (ds.length : Int) - 1 - scale < 0 := by omega
  have power := plainInteger?_minus ((ds.length : Int) - 1 - scale).natAbs
  subst value
  -- A single digit is written without a point; of several, the first one stands before it.
  match ds, some with
  | [d], some =>
    have text : minus negative ++ scientific [d] scale = (minus negative ++ [d]) ++
        'E' :: '-' :: Nat.toDigits 10 (([d].length : Int) - 1 - scale).natAbs := by
      simp only [scientific, if_pos below, List.append_assoc]
      rfl
    rw [text]
    refine (Mantissa.ofWhole negative isDigits some).ofChars?_exponent (Or.inr rfl) power ?_ range
    rw [List.length_singleton] at below ⊢
    omega
  | d :: d' :: ds, some =>
    have text : minus negative ++ scientific (d :: d' :: ds) scale =
        (minus negative ++ ([d] ++ '.' :: d' :: ds)) ++
          'E' :: '-' :: Nat.toDigits 10 (((d :: d' :: ds).length : Int) - 1 - scale).natAbs := by
      simp only [scientific, if_pos below, List.append_assoc]
      rfl
    rw [text]
    have mantissa : Mantissa (minus negative ++ ([d] ++ '.' :: d' :: ds)) _ _ :=
      Mantissa.ofPoint negative isDigits some
    refine mantissa.ofChars?_exponent (Or.inr rfl) power ?_ range
    simp only [List.length_cons] at below ⊢
    omega

theorem ofChars?_raised (negativeScale : scale < 0) (range : scaleInRange scale = true) :
    ofChars? (minus negative ++ (Nat.toDigits 10 n ++ 'e' :: '+' :: Nat.toDigits 10 scale.natAbs)) =
      some ⟨signed negative n, scale⟩ := by
  have mantissa := Mantissa.ofWhole negative (.toDigits n) Nat.toDigits_ne_nil
  rw [Nat.ofDigitChars_ten_toDigits] at mantissa
  rw [← List.append_assoc]
  exact mantissa.ofChars?_exponent (Or.inl rfl) (plainInteger?_plus _) (by omega) range

/-- Zeros written out in place of a negative scale are read as digits. -/
theorem ofChars?_zeros (k : Nat) :
    ofChars? (minus negative ++ (Nat.toDigits 10 n ++ List.replicate k '0')) =
      some ⟨signed negative (n * 10 ^ k), 0⟩ := by
  have isDigits := (Digits.toDigits n).append (.zeros k)
  have mantissa := Mantissa.ofWhole negative isDigits
    (List.append_ne_nil_of_left_ne_nil Nat.toDigits_ne_nil _)
  rw [Nat.ofDigitChars_append, Nat.ofDigitChars_ten_toDigits, Nat.ofDigitChars_replicate_zero,
    Nat.mul_comm] at mantissa
  exact mantissa.ofChars? (by decide)

theorem ofChars?_withPoint (negative : Bool) (n : Nat) {places : Nat}
    (range : scaleInRange places = true) :
    ofChars? (minus negative ++ withPoint (Nat.toDigits 10 n) places) =
      some ⟨signed negative n, places⟩ := by
  have isDigits := Digits.toDigits n
  have value : Nat.ofDigitChars 10 (Nat.toDigits 10 n) 0 = n := Nat.ofDigitChars_ten_toDigits
  have some : Nat.toDigits 10 n ≠ [] := Nat.toDigits_ne_nil
  generalize Nat.toDigits 10 n = ds at isDigits value some
  subst value
  unfold withPoint
  split
  case isTrue none =>
    subst none
    exact (Mantissa.ofWhole negative isDigits some).ofChars? range
  case isFalse =>
    split
    case isTrue few =>
      -- The point falls between digits.
      have length : (ds.drop (ds.length - places)).length = places := by
        rw [List.length_drop]
        omega
      have whole := List.take_append_drop (ds.length - places) ds
      have mantissa := Mantissa.ofPoint negative (whole.symm ▸ isDigits) (whole.symm ▸ some)
      rw [whole, length] at mantissa
      exact mantissa.ofChars? range
    case isFalse many =>
      have length : (List.replicate (places - ds.length) '0' ++ ds).length = places := by
        rw [List.length_append, List.length_replicate]
        omega
      have padded : Digits (['0'] ++ (List.replicate (places - ds.length) '0' ++ ds)) :=
        (Digits.zeros 1).append ((Digits.zeros _).append isDigits)
      have mantissa := Mantissa.ofPoint negative padded (List.cons_ne_nil _ _)
      rw [length] at mantissa
      -- The zeros in front are read as digits too, but they count for nothing.
      have same : Nat.ofDigitChars 10 (['0'] ++ (List.replicate (places - ds.length) '0' ++ ds)) 0 =
          Nat.ofDigitChars 10 ds 0 := by
        rw [← List.append_assoc, Nat.ofDigitChars_append]
        congr 1
        exact (Nat.ofDigitChars_replicate_zero (n := places - ds.length + 1)).trans (Nat.mul_zero _)
      rw [same] at mantissa
      exact mantissa.ofChars? range

end Forms

theorem magnitudeChars_of_zeros {n : Nat} {scale : Int} (few : -trailingZeros ≤ scale)
    (negative : scale < 0) :
    magnitudeChars n scale = Nat.toDigits 10 n ++ List.replicate scale.natAbs '0' := by
  have small : ¬((Nat.toDigits 10 n).length : Int) + pointZeros < scale := by
    unfold pointZeros
    omega
  simp only [magnitudeChars, if_neg small, if_neg (Int.not_lt.mpr few), if_pos negative]
  rfl

/-- Where no zeros are written out the digits and the scale are read as they were. -/
theorem ofChars?_magnitudeChars {negative : Bool} {n : Nat} {scale : Int}
    (exact : ¬(-trailingZeros ≤ scale ∧ scale < 0)) (range : scaleInRange scale = true) :
    ofChars? (minus negative ++ magnitudeChars n scale) = some ⟨signed negative n, scale⟩ := by
  unfold magnitudeChars
  dsimp only
  split
  case isTrue many =>
    refine ofChars?_scientific ?_ range
    unfold pointZeros at many
    omega
  case isFalse =>
    split
    case isTrue raised =>
      refine ofChars?_raised ?_ range
      unfold trailingZeros at raised
      omega
    case isFalse few =>
      rw [if_neg fun negative => exact ⟨Int.not_lt.mp few, negative⟩]
      have whole : (scale.natAbs : Int) = scale := by
        refine Int.natAbs_of_nonneg (Int.not_lt.mp fun negative => ?_)
        exact exact ⟨Int.not_lt.mp few, negative⟩
      have read := ofChars?_withPoint negative n (whole.symm ▸ range)
      rwa [whole] at read

theorem toChars_eq {d : Decimal} (nonzero : d.digits ≠ 0) :
    d.toChars = minus (decide (d.digits < 0)) ++ magnitudeChars d.digits.natAbs d.scale := by
  unfold toChars minus
  rw [if_neg nonzero]
  simp only [decide_eq_true_eq]
  split <;> rfl

/-- A decimal that is written can be read again. -/
theorem ofText?_toText {d : Decimal} (range : scaleInRange d.scale = true) :
    ofText? d.toText = some d.reread := by
  rw [ofText?, toText, String.toList_ofList]
  unfold reread
  split
  case isTrue zero =>
    rw [toChars, if_pos zero]
    decide
  case isFalse nonzero =>
    rw [toChars_eq nonzero]
    split
    case isTrue zeros =>
      rw [magnitudeChars_of_zeros zeros.1 zeros.2, ofChars?_zeros, signed_mul, signed_natAbs,
        Int.natCast_pow]
      rfl
    case isFalse exact =>
      rw [ofChars?_magnitudeChars exact range, signed_natAbs]

/-! ## What comes back -/

/-- The number that a decimal stands for. -/
def value (d : Decimal) : ℚ := d.digits * 10 ^ (-d.scale)

/-- Digits and scale come back, except for the scale of zero and for zeros before the point. -/
theorem reread_eq {d : Decimal} (zero : d.digits = 0 → d.scale = 0)
    (zeros : ¬(-trailingZeros ≤ d.scale ∧ d.scale < 0)) : d.reread = d := by
  unfold reread
  rw [if_neg zeros]
  split
  case isTrue none =>
    obtain ⟨digits, scale⟩ := d
    obtain rfl : digits = 0 := none
    obtain rfl : scale = 0 := zero rfl
    rfl
  case isFalse => rfl

/-- The number comes back in any case. -/
theorem value_reread (d : Decimal) : d.reread.value = d.value := by
  unfold reread
  split
  case isTrue zero => rw [value, value, zero, Int.cast_zero, zero_mul, zero_mul]
  case isFalse =>
    split
    case isTrue zeros =>
      have power : ((d.scale.natAbs : Nat) : Int) = -d.scale := by omega
      rw [value, value, ← power, zpow_natCast, Int.cast_mul, Int.cast_pow, neg_zero, zpow_zero,
        mul_one]
      rfl
    case isFalse => rfl

theorem toDigits_mul_pow {n : Nat} (positive : 0 < n) : ∀ k,
    Nat.toDigits 10 (n * 10 ^ k) = Nat.toDigits 10 n ++ List.replicate k '0'
  | 0 => by rw [Nat.pow_zero, Nat.mul_one, List.replicate_zero, List.append_nil]
  | k + 1 => by
    have step : n * 10 ^ (k + 1) = 10 * (n * 10 ^ k) + 0 := by
      rw [Nat.pow_succ, ← Nat.mul_assoc, Nat.mul_comm, Nat.add_zero]
    have power : 0 < n * 10 ^ k := Nat.mul_pos positive (Nat.pow_pos (by decide))
    rw [step, ← Nat.toDigits_append_toDigits (by decide) power (by decide),
      toDigits_mul_pow positive k, List.append_assoc, List.replicate_succ']
    rfl

theorem magnitudeChars_zero (n : Nat) : magnitudeChars n 0 = Nat.toDigits 10 n := by
  have small : ¬((Nat.toDigits 10 n).length : Int) + pointZeros < 0 := by
    unfold pointZeros
    omega
  simp only [magnitudeChars, if_neg small, if_neg (show ¬(0 : Int) < -trailingZeros by decide),
    if_neg (Int.lt_irrefl 0)]
  rfl

/-- What comes back is written the same again. -/
theorem toText_reread (d : Decimal) : d.reread.toText = d.toText := by
  unfold reread
  split
  case isTrue zero =>
    rw [toText, toText, toChars, toChars, if_pos rfl, if_pos zero]
  case isFalse nonzero =>
    split
    case isFalse => rfl
    case isTrue zeros =>
      have power : (0 : Int) < 10 ^ d.scale.natAbs := Int.pow_pos (by decide)
      have nonzero' : d.digits * 10 ^ d.scale.natAbs ≠ 0 :=
        Int.mul_ne_zero nonzero (Int.ne_of_gt power)
      have sign : decide (d.digits * 10 ^ d.scale.natAbs < 0) = decide (d.digits < 0) := by
        rw [decide_eq_decide]
        exact ⟨fun below => by_contra fun above => Int.not_lt.mpr
          (Int.mul_nonneg (Int.not_lt.mp above) (Int.le_of_lt power)) below,
          fun below => Int.mul_neg_of_neg_of_pos below power⟩
      have size : (d.digits * 10 ^ d.scale.natAbs).natAbs =
          d.digits.natAbs * 10 ^ d.scale.natAbs := by
        rw [Int.natAbs_mul, Int.natAbs_pow]
        rfl
      rw [toText, toText, toChars_eq nonzero, toChars_eq nonzero', sign, size, magnitudeChars_zero,
        toDigits_mul_pow (Int.natAbs_pos.mpr nonzero), magnitudeChars_of_zeros zeros.1 zeros.2]

end Decimal

end GradualScript
