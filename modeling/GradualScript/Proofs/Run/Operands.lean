/-
# GradualScript.Proofs.Run.Operands -- what operators, builtins and lookups yield

The leaves of a run: operators, the functions of the prelude, and members. None of them changes a
scope. An operator makes plain data and complains about its operands only; a builtin gives back an
argument, `Nil` or a range of integers, and complains about its arguments only. A member comes out
of some scope.
-/

import GradualScript.Proofs.Run.Ends

namespace GradualScript

/-- Data that refers to no scope and cannot be walked over. -/
def Value.IsPlain : Value → Prop
  | .iterable _ | .function _ | .object _ _ => False
  | _ => True

theorem Value.isPlain_ofLiteral (value : Literal) : (Value.ofLiteral value).IsPlain := by
  cases value <;> trivial

/-- A member is bound in the object or in one that its prototypes lead to. What holds of the object
and passes on to prototypes holds there. -/
theorem Value.exists_resolveLocal_of_lookup_of {h : Heap Value} {P : ScopeId → Prop}
    (passes : ∀ m p, prototype? h m = some p → P m → P p) {m : ScopeId} (here : P m) {n : String}
    {v : Value} (found : Value.lookup h m n = some v) : ∃ t, P t ∧ h.resolveLocal t n = some v := by
  have within : ∀ (k : Nat) (m : ScopeId), P m → Value.lookupWithin h n k m = some v →
      ∃ t, P t ∧ h.resolveLocal t n = some v := by
    intro k
    induction k with
    | zero =>
      intro m _ found
      cases found
    | succ k ih =>
      intro m here found
      rw [Value.lookupWithin] at found
      split at found
      case h_1 own =>
        obtain rfl := Option.some.inj found
        exact ⟨m, here, own⟩
      case h_2 =>
        split at found
        case h_1 p link => exact ih p (passes m p link here) found
        case h_2 => cases found
  exact within _ m here found

theorem Value.exists_resolveLocal_of_lookup {h : Heap Value} {m : ScopeId} {n : String} {v : Value}
    (found : Value.lookup h m n = some v) : ∃ t, h.resolveLocal t n = some v := by
  obtain ⟨t, _, bound⟩ :=
    exists_resolveLocal_of_lookup_of (P := fun _ => True) (fun _ _ _ => id) trivial found
  exact ⟨t, bound⟩

/-- The causes that operators stop for. -/
def EvalError.OfOperator : EvalError → Prop
  | .operandNotBoolean _ _ _ | .leftNotNumeric _ _ | .leftNotComparable _ _ | .rightMismatch _ _ _
  | .invalidSum _ _ | .operandsDiffer _ _ _ | .divisionByZero => True
  | _ => False

namespace BinaryOp

variable {op : BinaryOp} {l r v : Value} {cause : EvalError} {h : Heap Value}

theorem leftFault?_ofOperator (fault : op.leftFault? v = some cause) : cause.OfOperator := by
  unfold leftFault? at fault
  repeat' split at fault
  all_goals first
    | (cases fault; done)
    | (cases fault; trivial)

theorem decided?_plain (decided : op.decided? l = some v) : v.IsPlain := by
  unfold decided? at decided
  split at decided <;> cases decided <;> trivial

theorem add_plain (ok : l.add h r = .ok v) : v.IsPlain := by
  unfold Value.add at ok
  split at ok <;> cases ok <;> trivial

theorem arithmetic_plain (ok : l.arithmetic op r = .ok v) : v.IsPlain := by
  unfold Value.arithmetic at ok
  repeat' split at ok
  all_goals first
    | (cases ok; done)
    | (cases ok; trivial)

theorem combine_plain (ok : op.combine h l r = .ok v) : v.IsPlain := by
  cases op with
  | and | or =>
    simp only [combine] at ok
    split at ok <;> cases ok
    trivial
  | add => exact add_plain ok
  | sub | mul | div =>
    simp only [combine] at ok
    exact arithmetic_plain ok
  | lt | le | gt | ge =>
    simp only [combine] at ok
    split at ok <;> cases ok
    trivial
  | eq | ne =>
    cases ok
    trivial

theorem combine_ofOperator (error : op.combine h l r = .error cause) : cause.OfOperator := by
  cases op with
  | and | or =>
    simp only [combine] at error
    split at error <;> cases error
    trivial
  | add =>
    simp only [combine, Value.add] at error
    split at error <;> cases error
    trivial
  | sub | mul | div =>
    simp only [combine, Value.arithmetic] at error
    repeat' split at error
    all_goals first
      | (cases error; done)
      | (cases error; trivial)
  | lt | le | gt | ge =>
    simp only [combine] at error
    split at error <;> cases error
    trivial
  | eq | ne => cases error

end BinaryOp

/-- Where every complaint of an operator is allowed, all that is left to show of an operation is
what it ends with if it makes some plain datum. -/
theorem Run.Ends.binary_plain {E : Option EvalError → Prop} {call : Caller} {s : ScopeId}
    {op : BinaryOp} {left right : Expr} {w : World} {Q : Value → World → Prop}
    (faults : ∀ cause : EvalError, cause.OfOperator → E (some cause))
    (operands : Ends E (evaluate call s left) w fun _ w₁ => (∀ v, v.IsPlain → Q v w₁) ∧
      Ends E (evaluate call s right) w₁ fun _ w₂ => ∀ v, v.IsPlain → Q v w₂) :
    Ends E (evaluateKind call s (.binary op left right)) w Q := by
  refine .binary (operands.mono ?_)
  rintro l w₁ ⟨short, rightEnds⟩
  refine ⟨fun cause fault => faults cause (BinaryOp.leftFault?_ofOperator fault),
    fun v decided => short v (BinaryOp.decided?_plain decided), rightEnds.mono ?_⟩
  intro r w₂ made
  exact ⟨fun v ok => made v (BinaryOp.combine_plain ok),
    fun cause error => faults cause (BinaryOp.combine_ofOperator error)⟩

/-! ## What operators see of their operands -/

/-- To operators, the value `u` is in the heap `k` what `v` is in `h`: the same plain data, or else
something of the same kind with the same printed form. -/
structure Value.Resembles (h k : Heap Value) (v u : Value) : Prop where
  kind : u.kind = v.kind
  data : u = v ∨ ¬v.IsPlain ∧ ¬u.IsPlain
  text : u.display k = v.display h

namespace Value

variable {h k : Heap Value} {l r l' r' : Value}

theorem arithmetic_of_not_plain {op : BinaryOp} (unfit : ¬l.IsPlain ∨ ¬r.IsPlain) :
    l.arithmetic op r = .error (.operandsDiffer op l.kind r.kind) := by
  cases l <;> cases r <;> first | rfl | exact (unfit.elim (· trivial) (· trivial)).elim

theorem compare_of_not_plain (unfit : ¬l.IsPlain ∨ ¬r.IsPlain) : l.compare r = none := by
  cases l <;> cases r <;> first | rfl | exact (unfit.elim (· trivial) (· trivial)).elim

/-- An operand of a sum that is not plain data is printed if the other one is a string, and refused
by its kind if not. -/
theorem add_of_not_plain (unfit : ¬l.IsPlain) : l.add h r =
    match r with
    | .string b => .ok (.string (l.display h ++ b))
    | r => .error (.invalidSum l.kind r.kind) := by
  cases l <;> first | exact (unfit trivial).elim | cases r <;> rfl

theorem Resembles.add_eq (left : l.Resembles h k l') (right : r.Resembles h k r') :
    l'.add k r' = l.add h r := by
  obtain ⟨leftKind, rfl | ⟨unfit, unfit'⟩, leftText⟩ := left
  · obtain ⟨rightKind, rfl | ⟨unfit, unfit'⟩, rightText⟩ := right
    · cases l' with
      | string a => simp only [add, rightText]
      | _ => cases r' <;> first | rfl | simp only [add, leftText]
    · cases l' with
      | string a => simp only [add, rightText]
      | _ =>
        cases r <;> first
          | exact (unfit trivial).elim
          | cases r' <;> first | exact (unfit' trivial).elim | rfl | cases rightKind
  · rw [add_of_not_plain unfit, add_of_not_plain unfit', leftKind, leftText]
    obtain ⟨rightKind, rfl | ⟨unfit, unfit'⟩, _⟩ := right
    · rfl
    · cases r <;> first
        | exact (unfit trivial).elim
        | cases r' <;> first | exact (unfit' trivial).elim | rfl | cases rightKind

end Value

namespace BinaryOp

variable {h k : Heap Value} {l r l' r' : Value}

theorem leftFault?_eq (op : BinaryOp) (kind : l'.kind = l.kind)
    (data : l' = l ∨ ¬l.IsPlain ∧ ¬l'.IsPlain) : op.leftFault? l' = op.leftFault? l := by
  obtain rfl | ⟨unfit, unfit'⟩ := data
  · rfl
  · cases l <;> first
      | exact (unfit trivial).elim
      | cases l' <;> first | exact (unfit' trivial).elim | (cases op <;> rfl) | cases kind

theorem decided?_eq (op : BinaryOp) (data : l' = l ∨ ¬l.IsPlain ∧ ¬l'.IsPlain) :
    op.decided? l' = op.decided? l := by
  obtain rfl | ⟨unfit, unfit'⟩ := data
  · rfl
  · cases l <;> first
      | exact (unfit trivial).elim
      | cases l' <;> first | exact (unfit' trivial).elim | (cases op <;> rfl)

/-- Operands that resemble each other, and that are equal to each other in the same cases, have the
same result. -/
theorem combine_eq (op : BinaryOp) (left : l.Resembles h k l') (right : r.Resembles h k r')
    (equal : l'.equals r' = l.equals r) : op.combine k l' r' = op.combine h l r := by
  -- An operator gets the same plain data on both sides, or what it does not take on either.
  have same : l' = l ∧ r' = r ∨
      (¬l.IsPlain ∨ ¬r.IsPlain) ∧ (¬l'.IsPlain ∨ ¬r'.IsPlain) := by
    rcases left.data with leftSame | ⟨first, second⟩
    · rcases right.data with rightSame | ⟨first, second⟩
      · exact Or.inl ⟨leftSame, rightSame⟩
      · exact Or.inr ⟨Or.inr first, Or.inr second⟩
    · exact Or.inr ⟨Or.inl first, Or.inl second⟩
  cases op with
  | add => exact left.add_eq right
  | and | or =>
    obtain ⟨kind, rfl | ⟨unfit, unfit'⟩, _⟩ := right
    · rfl
    · cases r <;> first
        | exact (unfit trivial).elim
        | cases r' <;> first | exact (unfit' trivial).elim | rfl | cases kind
  | sub | mul | div =>
    simp only [combine]
    rcases same with ⟨rfl, rfl⟩ | ⟨unfit, unfit'⟩
    · rfl
    · rw [Value.arithmetic_of_not_plain unfit, Value.arithmetic_of_not_plain unfit', left.kind,
        right.kind]
  | lt | le | gt | ge =>
    simp only [combine]
    rcases same with ⟨rfl, rfl⟩ | ⟨unfit, unfit'⟩
    · rfl
    · rw [Value.compare_of_not_plain unfit, Value.compare_of_not_plain unfit',
        left.kind, right.kind]
  | eq | ne => simp only [combine, equal]

end BinaryOp

/-! ## Builtins -/

/-- The types of the arguments of a builtin, its receiver left out. -/
def Builtin.params : Builtin → List Ty
  | log | debug | print | functionAny | methodAny => [.any]
  | range => [.integer, .integer]
  | function | inheritedMethod | method => []
  | functionString | methodString => [.string]

def Builtin.returns : Builtin → Ty
  | log => .dynamic
  | functionAny | methodAny => .any
  | functionString | methodString => .string
  | range => .iterable
  | _ => .nil

/-- A builtin leaves all scopes alone. -/
theorem Builtin.ends_apply {E : Option EvalError → Prop} {w : World} (f : Builtin)
    (arguments : List Value) (range : ∀ a b, E (some (.rangeArguments a b)))
    (count : ∀ callee expected found, E (some (.argumentCount callee expected found))) :
    Run.Ends E (f.apply arguments) w fun v w' => w'.heap = w.heap ∧
      (v ∈ arguments ∨ v = .nil ∨ ∃ a b, v = .iterable (integers a b)) := by
  unfold apply
  split
  · exact .read_bind (.write_bind (.pure ⟨rfl, by simp⟩))
  · exact .read_bind (.write_bind (.pure ⟨rfl, by simp⟩))
  · exact .read_bind (.write_bind (.pure ⟨rfl, by simp⟩))
  · exact .pure ⟨rfl, Or.inr (Or.inr ⟨_, _, rfl⟩)⟩
  · exact .fail (range _ _)
  all_goals first
    | exact .pure ⟨rfl, by simp⟩
    | exact .fail (count _ _ _)

end GradualScript
