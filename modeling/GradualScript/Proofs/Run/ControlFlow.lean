/-
# GradualScript.Proofs.Run.ControlFlow -- accepted scripts return from calls only

The checker carries the declared result of the enclosing function along, and refuses a `RETURN`
where there is none. The evaluator knows no enclosing function: a `RETURN` travels outwards until a
call takes it, and is at fault if it gets to the top. Both come to the same. In an accepted script
no `RETURN` stands outside of all definitions, so no statement at the top returns, and a body that
returns does so to the call that has entered it.

The run is compared with itself, with a likeness that leaves no room for what only the checker
refuses (`Likeness.strict`). A script that is alike to itself in this sense meets neither a `RETURN`
at the top nor an assignment to what is no variable and no property, also not in a closure that is
called long after its definition: the closures of a heap have such definitions, too.
-/

import GradualScript.Proofs.Run.Erasure

namespace GradualScript

/-- A script may not contain what the checker refuses whatever the types are. -/
def Likeness.strict : Likeness := ⟨fun _ _ => True, False⟩

variable {H : Heap Ty} {Γ : Env} {id : NodeId}

/-! ## Targets -/

/-- An accepted assignment is to a variable or to a property. -/
theorem StmtKind.Elaborates.isTarget {target value : Expr} {k : Typed.StmtKind}
    (elaborates : StmtKind.Elaborates H Γ id (.assign target value) k) :
    target.kind.isTarget = true := by
  obtain ⟨node, kind⟩ := target
  obtain ⟨ty, t, _, _, ⟨name, rfl, _⟩ | ⟨receiver, name, r, rfl, _⟩⟩ := elaborates.assign
  · rfl
  · rfl

mutual

theorem Expr.Elaborates.strict : ∀ {e : Expr} {Γ : Env} {t : Typed.Expr},
    e.Elaborates H Γ t → e.Alike .strict e
  | ⟨node, kind⟩, Γ, t, elaborates => by
    rw [Expr.Elaborates] at elaborates
    rw [Expr.Alike]
    exact ⟨trivial, ExprKind.Elaborates.strict elaborates.2⟩

/-- Accepted expressions are strict: the bodies of their methods are. -/
theorem ExprKind.Elaborates.strict : ∀ {k : ExprKind} {Γ : Env} {t : Typed.ExprKind} {ty : Ty},
    k.Elaborates H Γ t ty → k.Alike .strict k
  | .literal value, Γ, t, ty, _ | .variable name, Γ, t, ty, _ => by rw [ExprKind.Alike]
  | .group inner, Γ, t, ty, elaborates => by
    rw [ExprKind.Elaborates] at elaborates
    obtain ⟨i, _, inner, _⟩ := elaborates
    rw [ExprKind.Alike]
    exact ⟨_, rfl, inner.strict⟩
  | .binary op left right, Γ, t, ty, elaborates => by
    rw [ExprKind.Elaborates] at elaborates
    obtain ⟨l, r, _, left, right, _⟩ := elaborates
    rw [ExprKind.Alike]
    exact ⟨_, _, rfl, left.strict, right.strict⟩
  | .property receiver name, Γ, t, ty, elaborates => by
    rw [ExprKind.Elaborates] at elaborates
    obtain ⟨r, _, receiver, _⟩ := elaborates
    rw [ExprKind.Alike]
    exact ⟨_, rfl, receiver.strict⟩
  | .call name arguments, Γ, t, ty, elaborates => by
    rw [ExprKind.Elaborates] at elaborates
    obtain ⟨params, ts, _, _, all, _⟩ := elaborates
    rw [ExprKind.Alike]
    exact ⟨_, rfl, Expr.ElaborateAll.strict all⟩
  | .invoke receiver name arguments, Γ, t, ty, elaborates => by
    rw [ExprKind.Elaborates] at elaborates
    obtain ⟨r, ts, _, receiver, all, _⟩ := elaborates
    rw [ExprKind.Alike]
    exact ⟨_, _, rfl, receiver.strict, Expr.ElaborateAll.strict all⟩
  | .object name fields methods, Γ, t, ty, elaborates => by
    rw [ExprKind.Elaborates] at elaborates
    obtain ⟨members, bs, ds, _, _, _, _, _, fields, methods⟩ := elaborates
    rw [ExprKind.Alike]
    exact ⟨_, _, rfl, Field.ElaborateAll.strict fields, Method.ElaborateAll.strict methods⟩

theorem Expr.ElaborateAll.strict : ∀ {es : List Expr} {Γ : Env} {ts : List Typed.Expr},
    Expr.ElaborateAll H Γ es ts → Expr.AllAlike .strict es es
  | [], Γ, ts, _ => by rw [Expr.AllAlike]
  | e :: rest, Γ, ts, elaborates => by
    rw [Expr.ElaborateAll] at elaborates
    obtain ⟨t, more, _, first, following⟩ := elaborates
    rw [Expr.AllAlike]
    exact ⟨_, _, rfl, first.strict, Expr.ElaborateAll.strict following⟩

theorem Binding.Elaborates.strict : ∀ {b : Binding} {Γ : Env} {id : NodeId} {t : Typed.Binding},
    b.Elaborates H Γ id t → b.Alike .strict b
  | ⟨name, ty, none⟩, Γ, id, t, _ => by
    rw [Binding.Alike, Expr.OptionAlike]
    exact ⟨rfl, rfl⟩
  | ⟨name, ty, some e⟩, Γ, id, t, elaborates => by
    rw [Binding.Elaborates] at elaborates
    obtain ⟨_, _, v, _, value, _⟩ := elaborates
    rw [Binding.Alike, Expr.OptionAlike]
    exact ⟨rfl, _, rfl, value.strict⟩

theorem Field.ElaborateAll.strict : ∀ {fs : List Field} {Γ : Env} {bs : List Typed.Binding},
    Field.ElaborateAll H Γ fs bs → Field.AllAlike .strict fs fs
  | [], Γ, bs, _ => by rw [Field.AllAlike]
  | ⟨node, binding⟩ :: rest, Γ, bs, elaborates => by
    rw [Field.ElaborateAll] at elaborates
    obtain ⟨b, more, _, first, following⟩ := elaborates
    rw [Field.AllAlike]
    exact ⟨_, _, rfl, trivial, first.strict, Field.ElaborateAll.strict following⟩

/-- The body of an accepted function is strict. -/
theorem Definition.Elaborates.strict : ∀ {d : Definition} {Γ : Env} {id : NodeId}
    {this : Option Ty} {t : Typed.Definition}, d.Elaborates H Γ id this t → d.Alike .strict d
  | ⟨name, params, returns, body⟩, Γ, id, this, t, elaborates => by
    rw [Definition.Elaborates] at elaborates
    obtain ⟨_, _, _, _, _, _, _, body⟩ := elaborates
    rw [Definition.Alike]
    exact ⟨rfl, rfl, Stmt.ElaborateAll.strict body⟩

theorem Method.ElaborateAll.strict : ∀ {ms : List Method} {Γ : Env} {this : Ty}
    {ds : List Typed.Definition}, Method.ElaborateAll H Γ this ms ds →
    Method.AllAlike .strict ms ms
  | [], Γ, this, ds, _ => by rw [Method.AllAlike]
  | ⟨node, definition⟩ :: rest, Γ, this, ds, elaborates => by
    rw [Method.ElaborateAll] at elaborates
    obtain ⟨d, more, _, first, following⟩ := elaborates
    rw [Method.AllAlike]
    exact ⟨_, _, rfl, trivial, first.strict, Method.ElaborateAll.strict following⟩

theorem Stmt.Elaborates.strict : ∀ {x : Stmt} {Γ : Env} {t : Typed.Stmt},
    x.Elaborates H Γ t → x.Alike .strict x
  | ⟨node, kind⟩, Γ, t, elaborates => by
    rw [Stmt.Elaborates] at elaborates
    rw [Stmt.Alike]
    exact ⟨trivial, StmtKind.Elaborates.strict elaborates.2⟩

/-- Accepted statements are strict: what they assign to can be assigned to. -/
theorem StmtKind.Elaborates.strict : ∀ {k : StmtKind} {Γ : Env} {id : NodeId}
    {t : Typed.StmtKind}, k.Elaborates H Γ id t → k.Alike .strict k
  | .letVar binding, Γ, id, t, elaborates => by
    rw [StmtKind.Elaborates] at elaborates
    obtain ⟨b, _, binding, _⟩ := elaborates
    rw [StmtKind.Alike]
    exact ⟨_, rfl, binding.strict⟩
  | .defFun definition, Γ, id, t, elaborates => by
    rw [StmtKind.Elaborates] at elaborates
    obtain ⟨d, _, definition⟩ := elaborates
    rw [StmtKind.Alike]
    exact ⟨_, rfl, definition.strict⟩
  | .ifElse condition thenBody elseBody, Γ, id, t, elaborates => by
    rw [StmtKind.Elaborates] at elaborates
    obtain ⟨c, a, b, _, condition, _, thenBody, elseBody⟩ := elaborates
    rw [StmtKind.Alike]
    exact ⟨_, _, _, rfl, condition.strict, Stmt.ElaborateAll.strict thenBody,
      Stmt.ElaborateAll.strict elseBody⟩
  | .forEach name iterable body, Γ, id, t, elaborates => by
    rw [StmtKind.Elaborates] at elaborates
    obtain ⟨ty, i, b, _, iterable, _, _, body⟩ := elaborates
    rw [StmtKind.Alike]
    exact ⟨_, _, rfl, iterable.strict, Stmt.ElaborateAll.strict body⟩
  | .returns none, Γ, id, t, _ => by
    rw [StmtKind.Alike]
    refine ⟨_, rfl, ?_⟩
    rw [Expr.OptionAlike]
  | .returns (some e), Γ, id, t, elaborates => by
    rw [StmtKind.Elaborates] at elaborates
    obtain ⟨expected, v, _, _, value, _⟩ := elaborates
    rw [StmtKind.Alike]
    refine ⟨_, rfl, ?_⟩
    rw [Expr.OptionAlike]
    exact ⟨_, rfl, value.strict⟩
  | .expr e, Γ, id, t, elaborates => by
    rw [StmtKind.Elaborates] at elaborates
    obtain ⟨v, _, value⟩ := elaborates
    rw [StmtKind.Alike]
    exact ⟨_, rfl, value.strict⟩
  | .assign ⟨node, kind⟩ value, Γ, id, t, elaborates => by
    have isTarget := elaborates.isTarget
    obtain ⟨ty, v, typed, _, target⟩ := elaborates.assign
    have target : kind.Alike .strict kind := by
      rcases target with ⟨name, rfl, _⟩ | ⟨receiver, name, r, rfl, _, receiver, _⟩
      · rw [ExprKind.Alike]
      · rw [ExprKind.Alike]
        exact ⟨_, rfl, receiver.strict⟩
    rw [StmtKind.Alike]
    refine ⟨_, _, rfl, ?_, typed.strict, Or.inl isTarget⟩
    rw [Expr.Alike]
    exact ⟨trivial, target⟩

theorem Stmt.ElaborateAll.strict : ∀ {xs : List Stmt} {Γ : Env} {ts : List Typed.Stmt},
    Stmt.ElaborateAll H Γ xs ts → Stmt.AllAlike .strict xs xs
  | [], Γ, ts, _ => by rw [Stmt.AllAlike]
  | x :: rest, Γ, ts, elaborates => by
    rw [Stmt.ElaborateAll] at elaborates
    obtain ⟨t, more, _, first, following⟩ := elaborates
    rw [Stmt.AllAlike]
    exact ⟨_, _, rfl, first.strict, Or.inr (Stmt.ElaborateAll.strict following)⟩

end

/-! ## Returns -/

mutual

/-- Outside of all functions there is no `RETURN`, in no branch and in no loop. -/
theorem Stmt.Elaborates.hasReturn : ∀ {x : Stmt} {Γ : Env} {t : Typed.Stmt},
    x.Elaborates H Γ t → Γ.returns = none → x.hasReturn = false
  | ⟨node, kind⟩, Γ, t, elaborates, top => by
    rw [Stmt.Elaborates] at elaborates
    rw [Stmt.hasReturn]
    exact StmtKind.Elaborates.hasReturn elaborates.2 top

/-- Outside of functions an accepted statement has no `RETURN`, in none of its blocks. -/
theorem StmtKind.Elaborates.hasReturn : ∀ {k : StmtKind} {Γ : Env} {id : NodeId}
    {t : Typed.StmtKind}, k.Elaborates H Γ id t → Γ.returns = none → k.hasReturn = false
  | .returns none, Γ, id, t, elaborates, top => by
    rw [StmtKind.Elaborates] at elaborates
    obtain ⟨expected, _, inside, _⟩ := elaborates
    cases top.symm.trans inside
  | .returns (some e), Γ, id, t, elaborates, top => by
    rw [StmtKind.Elaborates] at elaborates
    obtain ⟨expected, v, _, inside, _⟩ := elaborates
    cases top.symm.trans inside
  | .ifElse condition thenBody elseBody, Γ, id, t, elaborates, top => by
    rw [StmtKind.Elaborates] at elaborates
    obtain ⟨c, a, b, _, _, _, thenBody, elseBody⟩ := elaborates
    rw [StmtKind.hasReturn, Stmt.ElaborateAll.anyReturn thenBody top,
      Stmt.ElaborateAll.anyReturn elseBody top, Bool.or_false]
  | .forEach name iterable body, Γ, id, t, elaborates, top => by
    rw [StmtKind.Elaborates] at elaborates
    obtain ⟨ty, i, b, _, _, _, _, body⟩ := elaborates
    rw [StmtKind.hasReturn]
    exact Stmt.ElaborateAll.anyReturn body top
  | .letVar _, Γ, id, t, _, _ | .defFun _, Γ, id, t, _, _ | .expr _, Γ, id, t, _, _
  | .assign _ _, Γ, id, t, _, _ => by rw [StmtKind.hasReturn]

theorem Stmt.ElaborateAll.anyReturn : ∀ {xs : List Stmt} {Γ : Env} {ts : List Typed.Stmt},
    Stmt.ElaborateAll H Γ xs ts → Γ.returns = none → Stmt.anyReturn xs = false
  | [], Γ, ts, _, _ => by rw [Stmt.anyReturn]
  | x :: rest, Γ, ts, elaborates, top => by
    rw [Stmt.ElaborateAll] at elaborates
    obtain ⟨t, more, _, first, following⟩ := elaborates
    rw [Stmt.anyReturn, first.hasReturn top, Stmt.ElaborateAll.anyReturn following top,
      Bool.or_false]

end

/-! ## Accepted scripts -/

namespace Script

variable {p : Script} {fixtures : Bool} {typed : List Typed.Stmt}

/-- An accepted script has no `RETURN` outside of its functions. -/
theorem hasReturn_of_check (ok : (p.check fixtures).1 = .ok typed) : p.hasReturn = false :=
  Stmt.ElaborateAll.anyReturn ((CheckSession.start_closed fixtures).elaborates ok) rfl

theorem strict_of_check (ok : (p.check fixtures).1 = .ok typed) : p.Alike .strict p :=
  ⟨Stmt.ElaborateAll.strict ((CheckSession.start_closed fixtures).elaborates ok), fun returns =>
    Bool.false_ne_true (hasReturn_of_check ok ▸ returns)⟩

/-- The checker's word on control flow holds for the run. No run of an accepted script, however
dynamic it is and however deeply its calls are nested, stops for a `RETURN` or for an assignment to
what is neither a variable nor a property; and a script with a `RETURN` outside of all definitions
is refused. -/
theorem control_flow_of_check (fixtures : Bool) (p : Script) :
    (∀ typed, (p.check fixtures).1 = .ok typed → ∀ depth fault w,
      p.runWithin fixtures depth = .error (.fault fault) w →
      fault.cause.kind ≠ .controlFlow ∧ fault.cause ≠ .badTarget) ∧
    (p.hasReturn = true → ∃ d, (p.check fixtures).1 = .error d) := by
  refine ⟨fun typed ok depth fault w stopped => ?_, fun returns => ?_⟩
  · have ends := runWithin_alike fixtures (Nat.le_refl depth) (strict_of_check ok)
    have strict : ¬fault.cause.IsLax := by
      rw [stopped] at ends
      cases ends with
      | fault strict _ _ => exact strict
    constructor
    · intro kind
      cases cause : fault.cause <;> rw [cause] at kind strict <;>
        first | exact strict trivial | cases kind
    · intro cause
      exact strict (cause ▸ trivial)
  · cases result : (p.check fixtures).1 with
    | error d => exact ⟨d, rfl⟩
    | ok typed => exact (Bool.false_ne_true ((hasReturn_of_check result).symm.trans returns)).elim

end Script

/-- A function of a parameter without a type returns from a branch of a loop. The second call fails,
for its argument is not a condition. -/
def pickingScript : Script :=
  ⟨[⟨default, .defFun ⟨"pick", [⟨"flag", none⟩], none,
      [⟨default, .forEach "i" ⟨default, .call "range"
          [⟨default, .literal (.integer 0)⟩, ⟨default, .literal (.integer 2)⟩]⟩
        [⟨default, .ifElse ⟨default, .variable "flag"⟩
          [⟨default, .returns (some ⟨default, .variable "i"⟩)⟩] []⟩]⟩]⟩⟩,
    ⟨default, .expr ⟨default, .call "pick" [⟨default, .literal (.boolean true)⟩]⟩⟩,
    ⟨default, .expr ⟨default, .call "pick" [⟨default, .literal (.integer 3)⟩]⟩⟩]⟩

/-- A `RETURN` in a branch of a loop, at the top of a script and never reached. -/
def strayScript : Script :=
  ⟨[⟨default, .forEach "i" ⟨default, .call "range"
      [⟨default, .literal (.integer 0)⟩, ⟨default, .literal (.integer 0)⟩]⟩
    [⟨default, .ifElse ⟨default, .literal (.boolean true)⟩ [⟨default, .returns none⟩] []⟩]⟩]⟩

theorem Script.control_flow_of_check_picking :
    (∃ typed fault w, (pickingScript.check false).1 = .ok typed ∧
      pickingScript.runWithin false 1 = .error (.fault fault) w ∧
      fault.cause = .conditionNotBoolean .integer ∧
      fault.cause.kind ≠ .controlFlow ∧ fault.cause ≠ .badTarget) ∧
    strayScript.hasReturn = true ∧ ∃ d, (strayScript.check false).1 = .error d := by
  obtain ⟨fault, w, stopped, cause⟩ := Run.exists_of_cause?
    (show Run.cause? (Run.script 1 (RunSession.start false).scope pickingScript)
      ⟨(RunSession.start false).heap, #[]⟩ = some (.conditionNotBoolean .integer) by decide +kernel)
  obtain ⟨kept, _⟩ := Script.control_flow_of_check false pickingScript
  obtain ⟨_, refused⟩ := Script.control_flow_of_check false strayScript
  exact ⟨⟨_, fault, w, rfl, stopped, cause, kept _ rfl 1 fault w stopped⟩, rfl, refused rfl⟩

end GradualScript
