/-
# GradualScript.Proofs.Run.Ends -- what a step of a run ends with

`Ends E x w Q` says of a step `x` from `w`: if it comes to its end, then as `Q` says, and if it is
stopped, then for a cause that `E` allows. Where in the script the fault is located does not matter
to it. A step is described once, by a rule that mirrors it, and a proof about the evaluator follows
the evaluator's own text with these rules.
-/

import GradualScript.Run.Evaluate
import GradualScript.Proofs.Check.Elaboration

namespace GradualScript

/-- The cause of a halt, wherever it is located. A run that is stopped for its depth has none. -/
def Halt.cause? : Halt → Option EvalError
  | .fault located => some located.cause
  | .tooDeep => none

namespace Run

variable {α β : Type} {E E' : Option EvalError → Prop} {w : World}

theorem bind_of_ok {x : Run α} {f : α → Run β} {a : α} {w' : World} (result : x w = .ok a w') :
    (x >>= f) w = f a w' := by
  show EStateM.bind x f w = _
  rw [EStateM.bind, result]

/-- Started in `w`, the step ends as `Q` says or is stopped for a cause that `E` allows. -/
def Ends (E : Option EvalError → Prop) (x : Run α) (w : World) (Q : α → World → Prop) : Prop :=
  match x w with
  | .ok a w' => Q a w'
  | .error halt _ => E halt.cause?

/-- What stops a step, unless it comes to its end. -/
def cause? (x : Run α) (w : World) : Option EvalError :=
  match x w with
  | .ok _ _ => none
  | .error halt _ => halt.cause?

theorem exists_of_cause? {x : Run α} {cause : EvalError} (same : cause? x w = some cause) :
    ∃ fault w', x w = .error (.fault fault) w' ∧ fault.cause = cause := by
  unfold cause? at same
  split at same
  · cases same
  · rename_i halt w' stopped
    cases halt with
    | fault located => exact ⟨located, w', stopped, Option.some.inj same⟩
    | tooDeep => cases same

/-- Whether a step comes to its end. -/
def completes (x : Run α) (w : World) : Bool :=
  match x w with
  | .ok _ _ => true
  | .error _ _ => false

theorem exists_of_completes {x : Run α} (comes : completes x w = true) :
    ∃ a w', x w = .ok a w' := by
  unfold completes at comes
  split at comes
  case h_1 a w' ok => exact ⟨a, w', ok⟩
  case h_2 => cases comes

namespace Ends

variable {x : Run α} {f : α → Run β} {Q R : α → World → Prop} {S : β → World → Prop}

theorem of_error (ends : Ends E x w Q) {halt : Halt} {w' : World} (error : x w = .error halt w') :
    E halt.cause? := by
  rw [Ends, error] at ends
  exact ends

theorem of_ok (ends : Ends E x w Q) {a : α} {w' : World} (ok : x w = .ok a w') : Q a w' := by
  rw [Ends, ok] at ends
  exact ends

theorem mono (ends : Ends E x w Q) (imp : ∀ a w', Q a w' → R a w') : Ends E x w R := by
  unfold Ends at ends ⊢
  split at ends
  · exact imp _ _ ends
  · exact ends

theorem and (first : Ends E x w Q) (second : Ends E' x w R) :
    Ends E x w fun a w' => Q a w' ∧ R a w' := by
  unfold Ends at first second ⊢
  cases result : x w with
  | ok a w' =>
    rw [result] at first second
    exact ⟨first, second⟩
  | error halt w' =>
    rw [result] at first
    exact first

theorem bind (first : Ends E x w Q) (second : ∀ a w', Q a w' → Ends E (f a) w' S) :
    Ends E (x >>= f) w S := by
  unfold Ends at first
  unfold Ends
  simp only [Bind.bind, EStateM.bind]
  cases result : x w with
  | ok a w' =>
    rw [result] at first
    exact second a w' first
  | error halt w' =>
    rw [result] at first
    exact first

theorem pure {a : α} (post : Q a w) : Ends E (Pure.pure a : Run α) w Q := post

theorem tooDeep (allowed : E none) : Ends E (throw .tooDeep : Run α) w Q := by
  unfold Ends
  exact allowed

theorem fail {cause : EvalError} (allowed : E (some cause)) :
    Ends E (Run.fail cause : Run α) w Q := by
  unfold Ends
  exact allowed

theorem failAt {node : NodeRef} {cause : EvalError} (allowed : E (some cause)) :
    Ends E (Run.failAt node cause : Run α) w Q := by
  unfold Ends
  exact allowed

theorem fail_bind {cause : EvalError} (allowed : E (some cause)) :
    Ends E (Run.fail cause >>= f) w S :=
  bind (Q := fun _ _ => False) (fail allowed) fun _ _ => False.elim

theorem located {node : NodeRef} (ends : Ends E x w Q) : Ends E (Run.located node x) w Q := by
  unfold Ends at ends ⊢
  unfold Run.located
  cases result : x w with
  | ok a w' =>
    rw [result] at ends
    exact ends
  | error halt w' =>
    rw [result] at ends
    cases halt <;> exact ends

theorem rule {result : Heap Value → Except EvalError α}
    (ok : ∀ a, result w.heap = .ok a → Q a w)
    (error : ∀ cause, result w.heap = .error cause → E (some cause)) :
    Ends E (Run.rule result) w Q := by
  unfold Ends Run.rule
  cases judged : result w.heap with
  | ok a => exact ok a judged
  | error cause =>
    show E (some cause)
    exact error cause judged

/-- What an operation on values came to, wherever its complaint would have been located. -/
theorem eq_ok_of_located_rule {node : NodeRef} {result : Heap Value → Except EvalError α} {a : α}
    {w' : World} (ok : Run.located node (Run.rule result) w = .ok a w') :
    result w.heap = .ok a := by
  have ends : Ends (fun _ => True) (Run.located node (Run.rule result)) w fun a _ =>
      result w.heap = .ok a := .located (.rule (fun _ same => same) fun _ _ => trivial)
  exact ends.of_ok ok

/-! ### Steps that do not fail -/

theorem read_bind {question : Heap Value → α} (next : Ends E (f (question w.heap)) w S) :
    Ends E (Run.read question >>= f) w S := next

theorem child_bind {s : ScopeId} {b : Bindings Value} {f : ScopeId → Run β}
    (next : Ends E (f w.heap.size) { w with heap := (w.heap.child s b).2 } S) :
    Ends E (Run.child s b >>= f) w S := by
  refine .bind (Q := fun t w' => t = w.heap.size ∧ w' = { w with heap := (w.heap.child s b).2 })
    ⟨Heap.child_fst .., rfl⟩ ?_
  rintro _ _ ⟨rfl, rfl⟩
  exact next

theorem root_bind {f : ScopeId → Run β}
    (next : Ends E (f w.heap.size) { w with heap := (w.heap.root .empty).2 } S) :
    Ends E (Run.root >>= f) w S := next

theorem put {s : ScopeId} {name : String} {v : Value} {Q : Unit → World → Prop}
    (post : Q () { w with heap := w.heap.put s name v }) : Ends E (Run.put s name v) w Q := post

theorem write_bind {line : String} {f : Unit → Run β}
    (next : Ends E (f ()) { w with output := w.output.push line } S) :
    Ends E (Run.write line >>= f) w S := next

/-- A definition that may find its name taken. -/
theorem define_or_fail {s : ScopeId} {name : String} {v : Value} {cause : EvalError}
    (allowed : E (some cause)) : Ends E (Run.define s name v cause) w fun _ w' =>
      name ∉ (w.heap.bindings s).names ∧ w' = { w with heap := w.heap.put s name v } := by
  refine read_bind ?_
  split
  · exact fail allowed
  case isFalse unbound => exact put ⟨mt Heap.binds_iff.mpr unbound, rfl⟩

theorem define {s : ScopeId} {name : String} {v : Value} {cause : EvalError}
    (fresh : name ∉ (w.heap.bindings s).names) :
    Ends E (Run.define s name v cause) w fun _ w' =>
      w' = { w with heap := w.heap.put s name v } := by
  have unbound : w.heap.binds s name = false := by
    rw [← Bool.not_eq_true, Heap.binds_iff]
    exact fresh
  refine read_bind ?_
  rw [unbound]
  exact put rfl

end Ends

end Run

/-! ## Calls -/

/-- The names that the arguments of a call are bound to. -/
def Closure.boundNames (f : Closure) : List String :=
  if f.isMethod then "this" :: f.definition.paramNames else f.definition.paramNames

theorem Closure.length_boundNames (f : Closure) : f.boundNames.length = f.arity := by
  unfold boundNames arity Definition.paramNames
  cases f.isMethod <;> simp

namespace Run

/-- A call, once the arguments and the parameters have been found right. -/
def runBody (call : Caller) (f : Closure) (arguments : List Value) : Run Value := do
  let bound ← child f.captured (.ofList (f.boundNames.zip arguments))
  let inner ← child bound .empty
  match ← block call inner .nil f.definition.body with
  | .value _ => return .nil
  | .returned v => return v

/-- What a call checks before it runs the body. -/
theorem Ends.enter {E : Option EvalError → Prop} {call : Caller} {f : Closure}
    {arguments : List Value} {w : World} {Q : Value → World → Prop}
    (receiver : f.isMethod = true → arguments = [] → E (some (.noReceiver f.definition.name)))
    (count : arguments.length ≠ f.arity → E (some (.argumentCount f.definition.name
      f.definition.params.length (arguments.length - f.isMethod.toNat))))
    (parameters : f.isMethod = true →
      Ends E (checkParameters true f.definition) w fun _ w' => w' = w)
    (body : arguments.length = f.arity → Ends E (runBody call f arguments) w Q) :
    Ends E (enter call f arguments) w Q := by
  unfold Run.enter
  dsimp only
  split
  case isTrue none =>
    simp only [Bool.and_eq_true, List.isEmpty_iff] at none
    exact .fail_bind (receiver none.1 none.2)
  case isFalse =>
    split
    case isTrue differ => exact .fail_bind (count differ)
    case isFalse same =>
      have entered := body (Decidable.not_not.mp same)
      unfold runBody Closure.boundNames at entered
      split
      case isTrue method =>
        rw [if_pos method] at entered
        refine .bind (parameters method) ?_
        rintro _ w rfl
        exact entered
      case isFalse function =>
        rw [if_neg function] at entered
        exact entered

theorem parameterFault?_eq_none {isMethod : Bool} : ∀ {names seen : List String},
    names.Nodup → (∀ n ∈ names, n ∉ seen) → (isMethod = true → "this" ∉ names) →
      parameterFault? isMethod seen names = none
  | [], _, _, _, _ => rfl
  | name :: rest, seen, nodup, unseen, this => by
    obtain ⟨fresh, nodup⟩ := List.nodup_cons.mp nodup
    have plain : (isMethod && name == "this") = false := by
      rw [Bool.and_eq_false_imp]
      intro method
      have ne : "this" ≠ name := fun same => this method (same ▸ List.mem_cons_self)
      simpa using ne.symm
    rw [parameterFault?, plain, if_neg Bool.false_ne_true, if_neg (unseen name List.mem_cons_self)]
    refine parameterFault?_eq_none nodup (fun n mem again => ?_) fun method mem =>
      this method (List.mem_cons_of_mem _ mem)
    rcases List.mem_cons.mp again with rfl | again
    · exact fresh mem
    · exact unseen n (List.mem_cons_of_mem _ mem) again

/-- A definition that was checked has no fault in its parameters. -/
theorem Ends.checkParameters {E : Option EvalError → Prop} {H : Heap Ty} {Γ : Env} {id : NodeId}
    {this : Option Ty} {d : Definition} {t : Typed.Definition} {w : World}
    (elaborates : d.Elaborates H Γ id this t) :
    Ends E (checkParameters this.isSome d) w fun _ w' => w' = w := by
  have names := elaborates.paramNames_eq
  obtain ⟨name, params, returns, body⟩ := d
  rw [Definition.Elaborates] at elaborates
  obtain ⟨_, _, _, _, nodup, this, _⟩ := elaborates
  rw [Run.checkParameters, parameterFault?_eq_none (names ▸ nodup) (by simp) (names ▸ this)]
  exact .pure rfl

/-- The body of a definition was checked with the names that the arguments are bound to. -/
theorem boundNames_eq {f : Closure} {this : Option Ty} {t : Typed.Definition} (Γ : Env)
    (kind : f.isMethod = this.isSome) (params : t.paramNames = f.definition.paramNames) :
    (Γ.body this t).own.map Prod.fst = f.boundNames := by
  have entries : (t.params.map Typed.Param.entry).map Prod.fst = t.paramNames := by
    rw [List.map_map]
    rfl
  unfold Closure.boundNames
  rw [kind, ← params, ← entries]
  cases this <;> simp [Env.body, Env.inside]

theorem boundTypes_eq (Γ : Env) (this : Option Ty) (t : Typed.Definition) :
    (Γ.body this t).own.map Prod.snd = this.toList ++ t.params.map Typed.Param.ty := by
  have entries : (t.params.map Typed.Param.entry).map Prod.snd = t.params.map Typed.Param.ty := by
    rw [List.map_map]
    rfl
  rw [← entries]
  cases this <;> simp [Env.body, Env.inside]

/-- What is bound to a name, if arguments are bound to the names of `own`, one after the other. -/
theorem exists_lookup_of_mem_zip {α : Type} {P : α → Ty → Prop} {n : String} {v : α} :
    ∀ {own : List (String × Ty)} {arguments : List α}, (own.map Prod.fst).Nodup →
      List.Forall₂ P arguments (own.map Prod.snd) → (n, v) ∈ (own.map Prod.fst).zip arguments →
      ∃ t, own.lookup n = some t ∧ P v t
  | [], arguments, _, _, mem => by
    rw [List.map_nil, List.zip_nil_left] at mem
    cases mem
  | (m, t) :: own, _, nodup, .cons first following, mem => by
    rw [List.map_cons, List.nodup_cons] at nodup
    rw [List.map_cons, List.zip_cons_cons] at mem
    rcases List.mem_cons.mp mem with same | later
    · obtain ⟨rfl, rfl⟩ := Prod.mk.inj same
      exact ⟨t, List.lookup_cons_self, first⟩
    · have apart : n ≠ m := by
        rintro rfl
        exact nodup.1 (List.of_mem_zip later).1
      have differ : (n == m) = false := by simpa using apart
      rw [List.lookup_cons, differ]
      exact exists_lookup_of_mem_zip nodup.2 following later

/-! ## Expressions and statements

A rule for each construct that asks something of what it has evaluated: one hypothesis for each
answer, and what runs after it stands in the postcondition of what runs before.
-/

namespace Ends

variable {caller : Caller} {s : ScopeId} {Q : Value → World → Prop}

theorem binary {op : BinaryOp} {left right : Expr}
    (operands : Ends E (evaluate caller s left) w fun l w₁ =>
      (∀ cause, op.leftFault? l = some cause → E (some cause)) ∧
      (∀ v, op.decided? l = some v → Q v w₁) ∧
      Ends E (evaluate caller s right) w₁ fun r w₂ =>
        (∀ v, op.combine w₂.heap l r = .ok v → Q v w₂) ∧
        ∀ cause, op.combine w₂.heap l r = .error cause → E (some cause)) :
    Ends E (evaluateKind caller s (.binary op left right)) w Q := by
  rw [evaluateKind]
  refine .bind operands ?_
  rintro l w₁ ⟨unfit, short, combined⟩
  cases fault : op.leftFault? l with
  | some cause => exact .failAt (unfit cause fault)
  | none =>
    cases decided : op.decided? l with
    | some v => exact .pure (short v decided)
    | none =>
      refine .bind combined ?_
      rintro r w₂ ⟨ok, error⟩
      exact .located (.rule ok error)

theorem property {receiver : Expr} {name : String}
    (object : Ends E (evaluate caller s receiver) w fun v w₁ =>
      Ends E (membersOf receiver.node v) w₁ fun m w₂ =>
        (∀ u, Value.lookup w₂.heap m name = some u → Q u w₂) ∧
        (Value.lookup w₂.heap m name = none → E (some (.undefinedProperty name)))) :
    Ends E (evaluateKind caller s (.property receiver name)) w Q := by
  rw [evaluateKind]
  refine .bind object fun v w₁ members => .bind members ?_
  rintro m w₂ ⟨present, absent⟩
  refine .read_bind ?_
  cases found : Value.lookup w₂.heap m name with
  | some u => exact .pure (present u found)
  | none => exact .fail (absent found)

/-- The function is found before the arguments are evaluated. -/
theorem call {name : String} {arguments : List Expr}
    (function : ∀ f, w.heap.resolve s name = some (.function f) →
      Ends E (evaluateAll caller s arguments) w fun vs w₁ => Ends E (Run.invoke caller f vs) w₁ Q)
    (other : ∀ v, E (some (.notFunction name v)))
    (unbound : w.heap.resolve s name = none → E (some (.undefinedFunction name))) :
    Ends E (evaluateKind caller s (.call name arguments)) w Q := by
  rw [evaluateKind]
  refine .read_bind ?_
  cases found : w.heap.resolve s name with
  | none => exact .fail (unbound found)
  | some v =>
    cases v with
    | function f => exact .bind (function f found) fun _ _ invoked => invoked
    | _ => exact .fail (other _)

/-- The receiver comes first, then the method is found, and then the arguments are evaluated. -/
theorem invoke {receiver : Expr} {name : String} {arguments : List Expr}
    (object : Ends E (evaluate caller s receiver) w fun v w₁ =>
      Ends E (membersOf receiver.node v) w₁ fun m w₂ =>
        (∀ f, Value.lookup w₂.heap m name = some (.function f) →
          Ends E (evaluateAll caller s arguments) w₂ fun vs w₃ =>
            Ends E (Run.invoke caller f (v :: vs)) w₃ Q) ∧
        (∀ u, E (some (.notMethod name u))) ∧ E (some (.undefinedMethod name))) :
    Ends E (evaluateKind caller s (.invoke receiver name arguments)) w Q := by
  rw [evaluateKind]
  refine .bind object fun v w₁ members => .bind members ?_
  rintro m w₂ ⟨method, other, absent⟩
  refine .read_bind ?_
  cases found : Value.lookup w₂.heap m name with
  | none => exact .fail absent
  | some u =>
    cases u with
    | function f => exact .bind (method f found) fun _ _ invoked => invoked
    | _ => exact .fail (other _)

/-- Each branch runs in a new scope inside the active one. -/
theorem ifElse {condition : Expr} {thenBody elseBody : List Stmt} {Q : Flow → World → Prop}
    (decides : Ends E (evaluate caller s condition) w fun v w₁ =>
      (v = .boolean true → Ends E (block caller w₁.heap.size .nil thenBody)
        { w₁ with heap := (w₁.heap.child s .empty).2 } Q) ∧
      (v = .boolean false → Ends E (block caller w₁.heap.size .nil elseBody)
        { w₁ with heap := (w₁.heap.child s .empty).2 } Q) ∧
      (v.kind ≠ .boolean → E (some (.conditionNotBoolean v.kind)))) :
    Ends E (executeKind caller s (.ifElse condition thenBody elseBody)) w Q := by
  rw [executeKind]
  refine .bind decides ?_
  rintro v w₁ ⟨onTrue, onFalse, other⟩
  split
  · exact .child_bind (onTrue rfl)
  · exact .child_bind (onFalse rfl)
  case h_3 notTrue notFalse =>
    refine .failAt (other ?_)
    cases v with
    | boolean b =>
      cases b with
      | true => exact absurd rfl notTrue
      | false => exact absurd rfl notFalse
    | _ => simp [Value.kind]

end Ends

-- From here on only the rules open it. A run of a given script is not evaluated for its sake.
attribute [irreducible] Ends

end Run

end GradualScript
