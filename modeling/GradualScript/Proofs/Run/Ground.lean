/-
# GradualScript.Proofs.Run.Ground -- values of ground types, and the operator table

A ground type says what kind of value it stands for: a kind of data, or the type of a builtin. On
ground types the checker's operator table and the evaluator's operators agree: an operation that the
one accepts the other carries out, with a result of the type promised. Only a division can fail.

`Dynamic` and the types above it are not ground, and neither is the type of `log`, which promises a
`Dynamic` result.
-/

import GradualScript.Proofs.Run.Operands
import GradualScript.Ty.Operator

namespace GradualScript

/-- The types of the builtins, where they are ground. -/
def Builtin.ty? : Builtin → Option Ty
  | debug | print => some (.function [.any] .nil)
  | range => some (.function [.integer, .integer] .iterable)
  | _ => none

/-- The ground types. -/
def Ty.ground : List Ty :=
  [.nil, .boolean, .integer, .decimal, .character, .string, .iterable,
    .function [.any] .nil, .function [.integer, .integer] .iterable]

/-- The value is of the kind that the type stands for: data of its kind, a sequence of integers, or
a builtin of just that type. -/
def Value.HasType : Value → Ty → Prop
  | .nil, t => t = .nil
  | .boolean _, t => t = .boolean
  | .integer _, t => t = .integer
  | .decimal _, t => t = .decimal
  | .character _, t => t = .character
  | .string _, t => t = .string
  | .iterable elements, t => t = .iterable ∧ ∀ v ∈ elements, ∃ n, v = .integer n
  | .function (.builtin f), t => f.ty? = some t
  | .function (.closure _), _ => False
  | .object _ _, _ => False

theorem Value.HasType.ground {v : Value} {t : Ty} (typed : v.HasType t) : t ∈ Ty.ground := by
  cases v with
  | function f =>
    cases f with
    | closure f => exact typed.elim
    | builtin f =>
      have same : f.ty? = some t := typed
      cases f <;> simp [Builtin.ty?] at same <;> subst same <;> decide
  | object name members => exact typed.elim
  | iterable elements =>
    obtain ⟨rfl, _⟩ := typed
    decide
  | _ =>
    obtain rfl := typed
    decide

theorem Value.ofLiteral_hasType (l : Literal) : (Value.ofLiteral l).HasType l.ty := by
  cases l <;> rfl

/-- The kind of value that a type stands for. -/
def Ty.kind? : Ty → Option Kind
  | .nil => some .nil
  | .boolean => some .boolean
  | .integer => some .integer
  | .decimal => some .decimal
  | .character => some .character
  | .string => some .string
  | .iterable => some .iterable
  | .function _ _ => some .function
  | _ => none

theorem Value.HasType.kind {v : Value} {t : Ty} (typed : v.HasType t) : t.kind? = some v.kind := by
  cases v with
  | function f =>
    cases f with
    | closure f => exact typed.elim
    | builtin f =>
      have same : f.ty? = some t := typed
      cases f <;> simp [Builtin.ty?] at same <;> subst same <;> rfl
  | object name members => exact typed.elim
  | iterable elements =>
    obtain ⟨rfl, _⟩ := typed
    rfl
  | _ =>
    obtain rfl := typed
    rfl

namespace Value

variable {v w : Value}

namespace HasType

theorem exists_boolean (typed : v.HasType .boolean) : ∃ b, v = .boolean b := by
  have kind := Option.some.inj typed.kind
  cases v <;> first | exact ⟨_, rfl⟩ | cases kind

theorem exists_integer (typed : v.HasType .integer) : ∃ n, v = .integer n := by
  have kind := Option.some.inj typed.kind
  cases v <;> first | exact ⟨_, rfl⟩ | cases kind

theorem exists_decimal (typed : v.HasType .decimal) : ∃ d, v = .decimal d := by
  have kind := Option.some.inj typed.kind
  cases v <;> first | exact ⟨_, rfl⟩ | cases kind

theorem exists_string (typed : v.HasType .string) : ∃ s, v = .string s := by
  have kind := Option.some.inj typed.kind
  cases v <;> first | exact ⟨_, rfl⟩ | cases kind

theorem exists_iterable (typed : v.HasType .iterable) : ∃ vs, v = .iterable vs := by
  have kind := Option.some.inj typed.kind
  cases v <;> first | exact ⟨_, rfl⟩ | cases kind

end HasType

/-- Two values of one orderable kind have an order. -/
theorem exists_compare (orderable : v.isOrderable = true) (same : w.kind = v.kind) :
    ∃ order, v.compare w = some order := by
  cases v <;> cases w <;>
    first
      | exact ⟨_, rfl⟩
      | (cases same; done)
      | cases orderable

end Value

namespace Ty

variable {H : Heap Ty} {t u : Ty}

/-- Different ground types are not related. -/
theorem eq_of_isSubtype_ground (sub : t ∈ ground) (sup : u ∈ ground)
    (below : t.isSubtype H u = true) : t = u := by
  simp only [ground, List.mem_cons, List.not_mem_nil, or_false] at sub sup
  rcases sub with rfl | rfl | rfl | rfl | rfl | rfl | rfl | rfl | rfl <;>
  rcases sup with rfl | rfl | rfl | rfl | rfl | rfl | rfl | rfl | rfl <;>
    first
      | rfl
      | cases below

theorem ne_dynamic_of_ground (mem : t ∈ ground) : t ≠ .dynamic := by
  rintro rfl
  revert mem
  decide

end Ty

/-- What an operation on ground types may come to. -/
def Promised (t : Ty) : Except EvalError Value → Prop
  | .ok v => v.HasType t
  | .error cause => cause = .divisionByZero

namespace BinaryOp

variable {H : Heap Ty} {h : Heap Value} {op : BinaryOp} {l r v : Value} {tl tr t : Ty}

/-- The arithmetic of ground types. -/
theorem arithmeticResult?_ground {concat : Bool} (left : tl ∈ Ty.ground) (right : tr ∈ Ty.ground)
    (found : arithmeticResult? concat tl tr = some t) :
    (tl = .integer ∧ tr = .integer ∧ t = .integer) ∨
      (tl = .decimal ∧ tr = .decimal ∧ t = .decimal) ∨
      (concat = true ∧ t = .string ∧ (tl = .string ∨ tr = .string) ∧
        (tl = .string ∨ tl = .integer ∨ tl = .decimal) ∧
        (tr = .string ∨ tr = .integer ∨ tr = .decimal)) := by
  simp only [Ty.ground, List.mem_cons, List.not_mem_nil, or_false] at left right
  rcases left with rfl | rfl | rfl | rfl | rfl | rfl | rfl | rfl | rfl <;>
  rcases right with rfl | rfl | rfl | rfl | rfl | rfl | rfl | rfl | rfl <;>
  cases concat <;>
    first
      | (cases found; done)
      | (cases found; simp)

/-- The operands of an ordering are of one orderable type. -/
theorem orderingType_ground (left : tl ∈ Ty.ground) (right : tr ∈ Ty.ground)
    (ok : orderingType H op tl tr = .ok t) :
    tl = tr ∧ t = .boolean ∧ tl ∈ [Ty.integer, .decimal, .character, .string] := by
  unfold orderingType at ok
  split_ifs at ok with comparable _ differ
  have notDynamic (u : Ty) (mem : u ∈ Ty.ground) : u.isDynamic = false := by
    simpa [Ty.isDynamic] using Ty.ne_dynamic_of_ground mem
  simp only [notDynamic tl left, notDynamic tr right, Bool.not_false, Bool.and_true, bne_iff_ne,
    ne_eq, not_not] at differ
  cases ok
  refine ⟨differ, rfl, ?_⟩
  simp only [Ty.ground, List.mem_cons, List.not_mem_nil, or_false] at left
  rcases left with rfl | rfl | rfl | rfl | rfl | rfl | rfl | rfl | rfl <;>
    first
      | decide
      | exact absurd rfl comparable

theorem logicalType_ground (left : tl ∈ Ty.ground) (right : tr ∈ Ty.ground)
    (ok : logicalType op tl tr = .ok t) : tl = .boolean ∧ tr = .boolean ∧ t = .boolean := by
  unfold logicalType isBooleanLike at ok
  split_ifs at ok with first second
  simp only [Bool.not_eq_true', Bool.not_eq_false, Bool.or_eq_true, beq_iff_eq] at first second
  cases ok
  exact ⟨first.resolve_right (Ty.ne_dynamic_of_ground left),
    second.resolve_right (Ty.ne_dynamic_of_ground right), rfl⟩

/-- Operations on ground types have ground results. -/
theorem type_ground (left : tl ∈ Ty.ground) (right : tr ∈ Ty.ground)
    (ok : op.type H tl tr = .ok t) : t ∈ Ty.ground := by
  cases op with
  | add | sub | mul | div =>
    simp only [type] at ok
    split at ok
    · cases ok
      rcases arithmeticResult?_ground left right ‹_›
        with ⟨_, _, rfl⟩ | ⟨_, _, rfl⟩ | ⟨_, rfl, _⟩ <;> decide
    · cases ok
  | and | or =>
    obtain ⟨_, _, rfl⟩ := logicalType_ground left right ok
    decide
  | lt | le | gt | ge =>
    obtain ⟨_, rfl, _⟩ := orderingType_ground left right ok
    decide
  | eq | ne =>
    simp only [type, equalityType] at ok
    split_ifs at ok
    cases ok
    decide

/-- The operands of arithmetic other than the sum are both integers or both decimals. -/
theorem numbers_of_arithmetic (left : tl ∈ Ty.ground) (right : tr ∈ Ty.ground)
    (found : arithmeticResult? false tl tr = some t) :
    (tl = .integer ∧ tr = .integer ∧ t = .integer) ∨
      (tl = .decimal ∧ tr = .decimal ∧ t = .decimal) := by
  rcases arithmeticResult?_ground left right found with integers | decimals | ⟨concat, _⟩
  · exact Or.inl integers
  · exact Or.inr decimals
  · cases concat

/-- No accepted operation refuses its left operand. -/
theorem leftFault?_eq_none (typed : l.HasType tl) (right : tr ∈ Ty.ground)
    (ok : op.type H tl tr = .ok t) : op.leftFault? l = none := by
  have left := typed.ground
  cases op with
  | add | eq | ne => rfl
  | and | or =>
    obtain ⟨rfl, _⟩ := logicalType_ground left right ok
    obtain ⟨b, rfl⟩ := typed.exists_boolean
    rfl
  | lt | le | gt | ge =>
    obtain ⟨_, _, mem⟩ := orderingType_ground left right ok
    simp only [List.mem_cons, List.not_mem_nil, or_false] at mem
    rcases mem with rfl | rfl | rfl | rfl <;> cases l <;> first | rfl | cases typed.kind
  | sub | mul | div =>
    simp only [type] at ok
    split at ok
    · rcases numbers_of_arithmetic left right ‹_› with ⟨rfl, _⟩ | ⟨rfl, _⟩
      · obtain ⟨n, rfl⟩ := typed.exists_integer
        rfl
      · obtain ⟨d, rfl⟩ := typed.exists_decimal
        rfl
    · cases ok

theorem decided?_hasType (typed : l.HasType tl) (right : tr ∈ Ty.ground)
    (ok : op.type H tl tr = .ok t) (decided : op.decided? l = some v) : v.HasType t := by
  unfold decided? at decided
  split at decided
  · obtain ⟨_, _, rfl⟩ := logicalType_ground typed.ground right ok
    cases decided
    rfl
  · obtain ⟨_, _, rfl⟩ := logicalType_ground typed.ground right ok
    cases decided
    rfl
  · cases decided

theorem arithmetic_integers (a b : Int) :
    Promised .integer (Value.arithmetic op (.integer a) (.integer b)) := by
  simp only [Value.arithmetic]
  split
  · rfl
  · rfl
  · split <;> rfl

theorem arithmetic_decimals (a b : Decimal) :
    Promised .decimal (Value.arithmetic op (.decimal a) (.decimal b)) := by
  simp only [Value.arithmetic]
  split
  · rfl
  · rfl
  · split <;> rfl

theorem add_promised (left : l.HasType tl) (right : r.HasType tr)
    (found : arithmeticResult? true tl tr = some t) : Promised t (l.add h r) := by
  have leftKind := left.kind
  have rightKind := right.kind
  rcases arithmeticResult?_ground left.ground right.ground found with
    ⟨rfl, rfl, rfl⟩ | ⟨rfl, rfl, rfl⟩ | ⟨_, rfl, rfl | rfl, _⟩
  · obtain ⟨a, rfl⟩ := left.exists_integer
    obtain ⟨b, rfl⟩ := right.exists_integer
    rfl
  · obtain ⟨a, rfl⟩ := left.exists_decimal
    obtain ⟨b, rfl⟩ := right.exists_decimal
    rfl
  · obtain ⟨a, rfl⟩ := left.exists_string
    rw [Value.add]
    rfl
  · obtain ⟨b, rfl⟩ := right.exists_string
    cases l <;> simp only [Value.add] <;> rfl

/-- An accepted operation is carried out, with a result of the type promised. -/
theorem combine_promised (left : l.HasType tl) (right : r.HasType tr)
    (ok : op.type H tl tr = .ok t) : Promised t (op.combine h l r) := by
  have leftKind := left.kind
  have rightKind := right.kind
  cases op with
  | and | or =>
    obtain ⟨_, rfl, rfl⟩ := logicalType_ground left.ground right.ground ok
    obtain ⟨b, rfl⟩ := right.exists_boolean
    rfl
  | eq | ne =>
    simp only [type, equalityType] at ok
    split_ifs at ok
    cases ok
    rfl
  | lt | le | gt | ge =>
    have orderable := leftFault?_eq_none left right.ground ok
    simp only [leftFault?, ite_eq_left_iff, reduceCtorEq, imp_false, Bool.not_eq_true,
      Bool.not_eq_false] at orderable
    obtain ⟨rfl, rfl, _⟩ := orderingType_ground left.ground right.ground ok
    have same : r.kind = l.kind := Option.some.inj (rightKind.symm.trans leftKind)
    obtain ⟨order, found⟩ := Value.exists_compare orderable same
    simp only [combine, found]
    rfl
  | add =>
    simp only [type] at ok
    split at ok
    · cases ok
      exact add_promised left right ‹_›
    · cases ok
  | sub | mul | div =>
    simp only [type] at ok
    split at ok
    · cases ok
      simp only [combine]
      rcases numbers_of_arithmetic left.ground right.ground ‹_› with
        ⟨rfl, rfl, rfl⟩ | ⟨rfl, rfl, rfl⟩
      · obtain ⟨a, rfl⟩ := left.exists_integer
        obtain ⟨b, rfl⟩ := right.exists_integer
        exact arithmetic_integers a b
      · obtain ⟨a, rfl⟩ := left.exists_decimal
        obtain ⟨b, rfl⟩ := right.exists_decimal
        exact arithmetic_decimals a b
    · cases ok

end BinaryOp

end GradualScript
