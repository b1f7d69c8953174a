/-
# GradualScript.Proofs.Check.WellTyped -- accepted scripts are well typed, node by node

What the checker returns can be checked again without it: every node of a typed script carries the
types that its rule speaks of, and the rule holds of them. `WellTyped` says so by recursion on the
typed script. It speaks of one heap only, the one that checking ends with, so a judgement that was
made while an object was still growing has to hold of the finished object.
-/

import GradualScript.Proofs.Check.Accepted
import GradualScript.Proofs.Check.Prototypes

namespace GradualScript

namespace Typed

mutual

/-- An expression obeys the rule for its kind at the type that it carries. -/
def Expr.WellTyped (H : Heap Ty) : Expr → Prop
  | ⟨_, ty, kind⟩ => kind.WellTyped H ty

/-- A node of type `ty` obeys the rule for its kind, and so do the nodes below it. -/
def ExprKind.WellTyped (H : Heap Ty) (ty : Ty) : ExprKind → Prop
  | .literal value => ty = value.ty
  | .group inner => inner.WellTyped H ∧ ty = inner.ty
  | .binary op left right =>
    left.WellTyped H ∧ right.WellTyped H ∧ op.type H left.ty right.ty = .ok ty
  | .variable _ => True
  | .property receiver _ => receiver.WellTyped H
  | .call _ arguments => Expr.AllWellTyped H arguments
  | .invoke receiver _ arguments => receiver.WellTyped H ∧ Expr.AllWellTyped H arguments
  | .object _ fields methods =>
    Binding.AllWellTyped H fields ∧ Definition.AllWellTyped H methods

def Expr.AllWellTyped (H : Heap Ty) : List Expr → Prop
  | [] => True
  | e :: es => e.WellTyped H ∧ Expr.AllWellTyped H es

/-- An initial value is well typed and below the type of its name. -/
def Binding.WellTyped (H : Heap Ty) : Binding → Prop
  | ⟨_, _, _, none⟩ => True
  | ⟨_, _, ty, some value⟩ => value.WellTyped H ∧ value.ty.isSubtype H ty = true

def Binding.AllWellTyped (H : Heap Ty) : List Binding → Prop
  | [] => True
  | b :: bs => b.WellTyped H ∧ Binding.AllWellTyped H bs

/-- The statements of a body stand in a function with the result that the definition declares. -/
def Definition.WellTyped (H : Heap Ty) : Definition → Prop
  | ⟨_, _, _, returns, body⟩ => Stmt.AllWellTyped H (some returns) body

def Definition.AllWellTyped (H : Heap Ty) : List Definition → Prop
  | [] => True
  | d :: ds => d.WellTyped H ∧ Definition.AllWellTyped H ds

def Stmt.WellTyped (H : Heap Ty) (returns : Option Ty) : Stmt → Prop
  | ⟨_, kind⟩ => kind.WellTyped H returns

/-- `returns` is the declared result of the innermost function around a statement, if there is
one. -/
def StmtKind.WellTyped (H : Heap Ty) (returns : Option Ty) : StmtKind → Prop
  | .letVar binding => binding.WellTyped H
  | .defFun definition => definition.WellTyped H
  | .ifElse condition thenBody elseBody => condition.WellTyped H ∧
      (condition.ty = .boolean ∨ condition.ty = .dynamic) ∧
      Stmt.AllWellTyped H returns thenBody ∧ Stmt.AllWellTyped H returns elseBody
  | .forEach _ ty iterable body => iterable.WellTyped H ∧
      (iterable.ty = .dynamic ∧ ty = .dynamic ∨
        iterable.ty ≠ .dynamic ∧ iterable.ty.isSubtype H .iterable = true ∧ ty = .integer) ∧
      Stmt.AllWellTyped H returns body
  | .returns none => ∃ expected, returns = some expected ∧ Ty.nil.isSubtype H expected = true
  | .returns (some value) => ∃ expected, returns = some expected ∧
      value.WellTyped H ∧ value.ty.isSubtype H expected = true
  | .expr expression => expression.WellTyped H
  | .assignVariable _ ty value => value.WellTyped H ∧ value.ty.isSubtype H ty = true
  | .assignProperty receiver _ ty value =>
    receiver.WellTyped H ∧ value.WellTyped H ∧ value.ty.isSubtype H ty = true

def Stmt.AllWellTyped (H : Heap Ty) (returns : Option Ty) : List Stmt → Prop
  | [] => True
  | s :: ss => s.WellTyped H returns ∧ Stmt.AllWellTyped H returns ss

end

end Typed

/-! ## What elaborates is well typed

By recursion on the script. The ambient result is that of the environment. A body has the result of
its own definition there, whatever is around it. -/

variable {H : Heap Ty}

/-- The two ways in which the loop variable gets its type. -/
theorem forEach_elements {t ty : Ty} (iterable : t.isSubtype H .iterable = true)
    (same : ty = if t.isDynamic then .dynamic else .integer) :
    t = .dynamic ∧ ty = .dynamic ∨
      t ≠ .dynamic ∧ t.isSubtype H .iterable = true ∧ ty = .integer := by
  by_cases dynamic : t = .dynamic
  · refine Or.inl ⟨dynamic, ?_⟩
    rw [same, dynamic]
    rfl
  · refine Or.inr ⟨dynamic, iterable, ?_⟩
    have static : ¬t.isDynamic = true := by simpa [Ty.isDynamic] using dynamic
    rw [same, if_neg static]

mutual

theorem Expr.Elaborates.wellTyped {Γ : Env} :
    ∀ {e : Expr} {t : Typed.Expr}, e.Elaborates H Γ t → t.WellTyped H
  | ⟨_, _⟩, ⟨_, _, _⟩, elaborates => by
    rw [Expr.Elaborates] at elaborates
    rw [Typed.Expr.WellTyped]
    exact elaborates.2.wellTyped

/-- One case for each form: the premises of its rule are the conditions of well-typedness, at the
types that the parts carry. -/
theorem ExprKind.Elaborates.wellTyped {Γ : Env} :
    ∀ {e : ExprKind} {t : Typed.ExprKind} {ty : Ty}, e.Elaborates H Γ t ty → t.WellTyped H ty
  | .literal _, _, _, elaborates => by
    rw [ExprKind.Elaborates] at elaborates
    obtain ⟨rfl, same⟩ := elaborates
    rw [Typed.ExprKind.WellTyped]
    exact same
  | .group _, _, _, elaborates => by
    rw [ExprKind.Elaborates] at elaborates
    obtain ⟨_, rfl, inner, same⟩ := elaborates
    rw [Typed.ExprKind.WellTyped]
    exact ⟨inner.wellTyped, same⟩
  | .binary _ _ _, _, _, elaborates => by
    rw [ExprKind.Elaborates] at elaborates
    obtain ⟨_, _, rfl, left, right, judged⟩ := elaborates
    rw [Typed.ExprKind.WellTyped]
    exact ⟨left.wellTyped, right.wellTyped, judged⟩
  | .variable _, _, _, elaborates => by
    rw [ExprKind.Elaborates] at elaborates
    obtain ⟨rfl, _⟩ := elaborates
    rw [Typed.ExprKind.WellTyped]
    trivial
  | .property _ _, _, _, elaborates => by
    rw [ExprKind.Elaborates] at elaborates
    obtain ⟨_, rfl, receiver, _⟩ := elaborates
    rw [Typed.ExprKind.WellTyped]
    exact receiver.wellTyped
  | .call _ arguments, _, _, elaborates => by
    rw [ExprKind.Elaborates] at elaborates
    obtain ⟨_, _, rfl, _, all, _⟩ := elaborates
    rw [Typed.ExprKind.WellTyped]
    exact Expr.ElaborateAll.wellTyped all
  | .invoke _ _ arguments, _, _, elaborates => by
    rw [ExprKind.Elaborates] at elaborates
    obtain ⟨_, _, rfl, receiver, all, _⟩ := elaborates
    rw [Typed.ExprKind.WellTyped]
    exact ⟨receiver.wellTyped, Expr.ElaborateAll.wellTyped all⟩
  | .object _ fields methods, _, _, elaborates => by
    rw [ExprKind.Elaborates] at elaborates
    obtain ⟨_, _, _, rfl, rfl, _, _, _, bound, defined⟩ := elaborates
    rw [Typed.ExprKind.WellTyped]
    exact ⟨Field.ElaborateAll.wellTyped bound, Method.ElaborateAll.wellTyped defined⟩

theorem Expr.ElaborateAll.wellTyped {Γ : Env} :
    ∀ {es : List Expr} {ts : List Typed.Expr},
      Expr.ElaborateAll H Γ es ts → Typed.Expr.AllWellTyped H ts
  | [], _, elaborates => by
    rw [Expr.ElaborateAll] at elaborates
    rw [elaborates, Typed.Expr.AllWellTyped]
    trivial
  | e :: es, _, elaborates => by
    rw [Expr.ElaborateAll] at elaborates
    obtain ⟨_, _, rfl, first, rest⟩ := elaborates
    rw [Typed.Expr.AllWellTyped]
    exact ⟨first.wellTyped, Expr.ElaborateAll.wellTyped rest⟩

theorem Binding.Elaborates.wellTyped {Γ : Env} {id : NodeId} :
    ∀ {b : Binding} {t : Typed.Binding}, b.Elaborates H Γ id t → t.WellTyped H
  | ⟨_, _, none⟩, ⟨_, _, _, _⟩, elaborates => by
    rw [Binding.Elaborates] at elaborates
    obtain ⟨_, _, rfl, _⟩ := elaborates
    rw [Typed.Binding.WellTyped]
    trivial
  | ⟨_, _, some e⟩, ⟨_, _, _, _⟩, elaborates => by
    rw [Binding.Elaborates] at elaborates
    obtain ⟨_, _, _, rfl, value, below, _⟩ := elaborates
    rw [Typed.Binding.WellTyped]
    exact ⟨value.wellTyped, below⟩

theorem Field.ElaborateAll.wellTyped {Γ : Env} :
    ∀ {fs : List Field} {ts : List Typed.Binding},
      Field.ElaborateAll H Γ fs ts → Typed.Binding.AllWellTyped H ts
  | [], _, elaborates => by
    rw [Field.ElaborateAll] at elaborates
    rw [elaborates, Typed.Binding.AllWellTyped]
    trivial
  | ⟨_, _⟩ :: rest, _, elaborates => by
    rw [Field.ElaborateAll] at elaborates
    obtain ⟨_, _, rfl, first, following⟩ := elaborates
    rw [Typed.Binding.AllWellTyped]
    exact ⟨first.wellTyped, Field.ElaborateAll.wellTyped following⟩

/-- The body is judged in the environment of the definition, of which the declared result alone
counts here. -/
theorem Definition.Elaborates.wellTyped {Γ : Env} {id : NodeId} {this : Option Ty} :
    ∀ {d : Definition} {t : Typed.Definition}, d.Elaborates H Γ id this t → t.WellTyped H
  | ⟨_, _, _, body⟩, ⟨_, _, _, _, _⟩, elaborates => by
    rw [Definition.Elaborates] at elaborates
    obtain ⟨_, _, _, _, _, _, _, elaborates⟩ := elaborates
    rw [Typed.Definition.WellTyped]
    exact Stmt.ElaborateAll.wellTyped elaborates

theorem Method.ElaborateAll.wellTyped {this : Ty} : ∀ {ms : List Method} {Γ : Env}
    {ts : List Typed.Definition},
      Method.ElaborateAll H Γ this ms ts → Typed.Definition.AllWellTyped H ts
  | [], _, _, elaborates => by
    rw [Method.ElaborateAll] at elaborates
    rw [elaborates, Typed.Definition.AllWellTyped]
    trivial
  | ⟨_, _⟩ :: rest, _, _, elaborates => by
    rw [Method.ElaborateAll] at elaborates
    obtain ⟨_, _, rfl, first, following⟩ := elaborates
    rw [Typed.Definition.AllWellTyped]
    exact ⟨first.wellTyped, Method.ElaborateAll.wellTyped following⟩

theorem Stmt.Elaborates.wellTyped {Γ : Env} :
    ∀ {s : Stmt} {t : Typed.Stmt}, s.Elaborates H Γ t → t.WellTyped H Γ.returns
  | ⟨_, _⟩, ⟨_, _⟩, elaborates => by
    rw [Stmt.Elaborates] at elaborates
    rw [Typed.Stmt.WellTyped]
    exact elaborates.2.wellTyped

theorem StmtKind.Elaborates.wellTyped {Γ : Env} {id : NodeId} :
    ∀ {s : StmtKind} {t : Typed.StmtKind}, s.Elaborates H Γ id t → t.WellTyped H Γ.returns
  | .letVar _, _, elaborates => by
    rw [StmtKind.Elaborates] at elaborates
    obtain ⟨_, rfl, bound, _⟩ := elaborates
    rw [Typed.StmtKind.WellTyped]
    exact bound.wellTyped
  | .defFun _, _, elaborates => by
    rw [StmtKind.Elaborates] at elaborates
    obtain ⟨_, rfl, defined⟩ := elaborates
    rw [Typed.StmtKind.WellTyped]
    exact defined.wellTyped
  | .ifElse _ thenBody elseBody, _, elaborates => by
    rw [StmtKind.Elaborates] at elaborates
    obtain ⟨_, _, _, rfl, condition, booleanLike, whenTrue, whenFalse⟩ := elaborates
    rw [Typed.StmtKind.WellTyped]
    refine ⟨condition.wellTyped, by simpa [BinaryOp.isBooleanLike] using booleanLike, ?_, ?_⟩
    · exact Stmt.ElaborateAll.wellTyped (Γ := Γ.inside []) whenTrue
    · exact Stmt.ElaborateAll.wellTyped (Γ := Γ.inside []) whenFalse
  | .forEach name _ body, _, elaborates => by
    rw [StmtKind.Elaborates] at elaborates
    obtain ⟨ty, _, _, rfl, iterable, judged, same, elaborates⟩ := elaborates
    rw [Typed.StmtKind.WellTyped]
    refine ⟨iterable.wellTyped, forEach_elements judged same, ?_⟩
    exact Stmt.ElaborateAll.wellTyped (Γ := Γ.inside [(name, ty)]) elaborates
  | .returns none, _, elaborates => by
    rw [StmtKind.Elaborates] at elaborates
    obtain ⟨expected, rfl, same, below⟩ := elaborates
    rw [Typed.StmtKind.WellTyped]
    exact ⟨expected, same, below⟩
  | .returns (some _), _, elaborates => by
    rw [StmtKind.Elaborates] at elaborates
    obtain ⟨expected, _, rfl, same, value, below⟩ := elaborates
    rw [Typed.StmtKind.WellTyped]
    exact ⟨expected, same, value.wellTyped, below⟩
  | .expr _, _, elaborates => by
    rw [StmtKind.Elaborates] at elaborates
    obtain ⟨_, rfl, elaborates⟩ := elaborates
    rw [Typed.StmtKind.WellTyped]
    exact elaborates.wellTyped
  | .assign ⟨_, .variable _⟩ _, _, elaborates => by
    rw [StmtKind.Elaborates] at elaborates
    obtain ⟨_, _, rfl, _, value, below⟩ := elaborates
    rw [Typed.StmtKind.WellTyped]
    exact ⟨value.wellTyped, below⟩
  | .assign ⟨_, .property _ _⟩ _, _, elaborates => by
    rw [StmtKind.Elaborates] at elaborates
    obtain ⟨_, _, _, rfl, receiver, _, value, below⟩ := elaborates
    rw [Typed.StmtKind.WellTyped]
    exact ⟨receiver.wellTyped, value.wellTyped, below⟩
  | .assign ⟨_, .literal _⟩ _, _, elaborates | .assign ⟨_, .group _⟩ _, _, elaborates
  | .assign ⟨_, .binary _ _ _⟩ _, _, elaborates | .assign ⟨_, .call _ _⟩ _, _, elaborates
  | .assign ⟨_, .invoke _ _ _⟩ _, _, elaborates | .assign ⟨_, .object _ _ _⟩ _, _, elaborates => by
    rw [StmtKind.Elaborates] at elaborates
    · exact elaborates.elim
    all_goals simp

/-- The environment grows from statement to statement, the result that is declared around them
stays. -/
theorem Stmt.ElaborateAll.wellTyped : ∀ {ss : List Stmt} {Γ : Env} {ts : List Typed.Stmt},
    Stmt.ElaborateAll H Γ ss ts → Typed.Stmt.AllWellTyped H Γ.returns ts
  | [], _, _, elaborates => by
    rw [Stmt.ElaborateAll] at elaborates
    rw [elaborates, Typed.Stmt.AllWellTyped]
    trivial
  | s :: rest, Γ, _, elaborates => by
    rw [Stmt.ElaborateAll] at elaborates
    obtain ⟨t, _, rfl, first, following⟩ := elaborates
    rw [Typed.Stmt.AllWellTyped]
    exact ⟨first.wellTyped, Stmt.ElaborateAll.wellTyped (Γ := Γ.after t.kind) following⟩

end

/-! ## Sessions -/

/-- Every node of an accepted script is well typed in the heap that checking ends with, and no
statement returns at the top. -/
theorem CheckSession.check_wellTyped {s : CheckSession} (closed : s.Closed) {p : Script}
    {typed : List Typed.Stmt} (ok : (s.check p).1 = .ok typed) :
    Typed.Stmt.AllWellTyped (s.check p).2.heap none typed :=
  Stmt.ElaborateAll.wellTyped (closed.elaborates ok)

/-- An object with a field and a method that reads it through `this`, and a loop that calls the
method and assigns the field. -/
def counterScript : Script :=
  ⟨[⟨default, .letVar ⟨"counter", none, some ⟨default, .object (some "Counter")
      [⟨default, "step", some "Integer", some ⟨default, .literal (.integer 2)⟩⟩]
      [⟨default, "next", [⟨"n", some "Integer"⟩], some "Integer",
        [⟨default, .returns (some ⟨default, .binary .add ⟨default, .variable "n"⟩
          ⟨default, .property ⟨default, .variable "this"⟩ "step"⟩⟩)⟩]⟩]⟩⟩⟩,
    ⟨default, .forEach "i"
      ⟨default, .call "range"
        [⟨default, .literal (.integer 0)⟩, ⟨default, .literal (.integer 3)⟩]⟩
      [⟨default, .ifElse
        ⟨default, .binary .lt ⟨default, .variable "i"⟩ ⟨default, .literal (.integer 1)⟩⟩
        [⟨default, .assign ⟨default, .property ⟨default, .variable "counter"⟩ "step"⟩
          ⟨default, .invoke ⟨default, .variable "counter"⟩ "next" [⟨default, .variable "i"⟩]⟩⟩]
        []⟩]⟩]⟩

theorem CheckSession.check_wellTyped_counter :
    ∃ typed, ((CheckSession.start true).check counterScript).1 = .ok typed ∧
      Typed.Stmt.AllWellTyped ((CheckSession.start true).check counterScript).2.heap none typed :=
  ⟨_, rfl, CheckSession.check_wellTyped (CheckSession.start_closed true) rfl⟩

/-! ### A top level that is an object -/

/-- The top level is the scope of the members of `c`, which has none so far. The names that scripts
need are bound around it. -/
def hollowSession : CheckSession :=
  let (outer, h) := Heap.empty.root (.ofList [("Dynamic", .dynamic), ("c", .object (some "c") 1)])
  let (inner, h) := h.child outer .empty
  ⟨h, inner⟩

/-- An object whose prototype is `Dynamic` passes for any object without members, so it is accepted
as a `c`. Being bound at the top level it is then a member of `c` itself. -/
def hollowScript : Script :=
  ⟨[⟨default, .letVar ⟨"a", some "c", some ⟨default, .object none
    [⟨default, "prototype", some "Dynamic", some ⟨default, .literal (.integer 1)⟩⟩] []⟩⟩⟩]⟩

/-- The judgement that was made about the initial value does not hold any more in the end. -/
theorem hollowSession_not_wellTyped :
    WellFounded (Ty.Links hollowSession.heap) ∧
      ∃ typed, (hollowSession.check hollowScript).1 = .ok typed ∧
        ¬Typed.Stmt.AllWellTyped (hollowSession.check hollowScript).2.heap none typed := by
  refine ⟨Ty.wellFounded_of_none (by decide), _, rfl, fun wellTyped => ?_⟩
  rw [Typed.Stmt.AllWellTyped, Typed.Stmt.WellTyped, Typed.StmtKind.WellTyped,
    Typed.Binding.WellTyped] at wellTyped
  exact absurd wellTyped.1.2 (by decide)

end GradualScript
