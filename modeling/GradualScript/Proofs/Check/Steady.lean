/-
# GradualScript.Proofs.Check.Steady -- scripts that keep the types of captured names

A definition is checked once, with the types that names have where it stands, and the block around
it may declare some of the names anew before it is called (`Typed.Stmt.captures`). A script is
*steady* if such a declaration keeps the type: no `LET` and no `DEF` gives another type to a visible
name that a function defined earlier in the block uses, in the block itself or inside one of its
statements. Names that no earlier function uses may be declared anew with whatever type.

Steadiness is judged of scripts whose types are all *concrete*: each stands for values of one kind
only, so `Any`, `Dynamic`, `Equatable`, `Comparable` and object types do not occur. On concrete
types subtyping is equality.
-/

import GradualScript.Proofs.Check.Uses
import GradualScript.Proofs.Run.Ground

namespace GradualScript

/-! ## Concrete types -/

/-- The four types left out stand for values of several kinds. -/
def Primitive.isConcrete : Primitive → Bool
  | any | dynamic | equatable | comparable => false
  | _ => true

theorem Primitive.not_below_of_concrete {p q : Primitive} (concrete : q.isConcrete = true) :
    p.below q = false := by
  cases q <;> first | cases p <;> rfl | cases concrete

namespace Ty

mutual

/-- All values of the type are of one kind, and if they are functions, so are their arguments and
results. -/
def isConcrete : Ty → Bool
  | prim p => p.isConcrete
  | function params returns => allConcrete params && isConcrete returns
  | object _ _ => false

def allConcrete : List Ty → Bool
  | [] => true
  | t :: ts => isConcrete t && allConcrete ts

end

variable {H : Heap Ty} {t u : Ty}

/-- Concrete types that are related are equal. -/
theorem eq_of_isSubtype_concrete (sub : t.isConcrete = true) (sup : u.isConcrete = true)
    (below : t.isSubtype H u = true) : t = u := by
  simp only [isSubtype, Bool.or_eq_true, beq_iff_eq] at below
  rcases below with (((same | rfl) | rfl) | rfl) | below
  · exact same
  · cases sup
  · cases sup
  · cases sub
  · cases t with
    | prim p =>
      cases u with
      | prim q =>
        have below : p.below q = true := below
        rw [Primitive.not_below_of_concrete sup] at below
        cases below
      | _ => cases below
    | function params returns => cases u <;> cases below
    | object name members => cases sub

/-- The concrete types that are not functions are ground. -/
theorem mem_ground_of_concrete {p : Primitive} (concrete : (prim p).isConcrete = true) :
    prim p ∈ ground := by
  revert concrete
  cases p <;> decide

/-- Objects and values without a type alone have members. -/
theorem not_hasMember_of_concrete (concrete : t.isConcrete = true) {name : String}
    {use : MemberUse} : ¬HasMember H t name use u := by
  rintro ⟨h, _, found⟩
  cases t with
  | prim p =>
    cases p with
    | any | dynamic | equatable | comparable => cases concrete
    | _ => cases found
  | function params returns => cases found
  | object objectName members => cases concrete

end Ty

namespace BinaryOp

variable {H : Heap Ty} {op : BinaryOp} {l r t : Ty}

/-- No arithmetic is done on functions. -/
theorem arithmeticResult?_function {concat : Bool} (left : l.isConcrete = true)
    (right : r.isConcrete = true)
    (function : (∃ ps s, l = .function ps s) ∨ ∃ ps s, r = .function ps s) :
    arithmeticResult? concat l r = none := by
  rcases function with ⟨ps, s, rfl⟩ | ⟨ps, s, rfl⟩
  · cases r with
    | prim p =>
      cases p with
      | any | dynamic | equatable | comparable => cases right
      | _ => rfl
    | _ => rfl
  · cases l with
    | prim p =>
      cases p with
      | any | dynamic | equatable | comparable => cases left
      | _ => rfl
    | _ => rfl

end BinaryOp

namespace Typed

/-! ## Concrete scripts -/

mutual

/-- All types are concrete, no object is made, and every `LET` has an initial value. -/
def Expr.isConcrete : Expr → Bool
  | ⟨_, ty, kind⟩ => ty.isConcrete && kind.isConcrete

/-- What stands in the expression has concrete types, and it is no object expression. -/
def ExprKind.isConcrete : ExprKind → Bool
  | .literal _ | .variable _ => true
  | .group inner => inner.isConcrete
  | .binary _ left right => left.isConcrete && right.isConcrete
  | .property receiver _ => receiver.isConcrete
  | .call _ arguments => Expr.allConcrete arguments
  | .invoke receiver _ arguments => receiver.isConcrete && Expr.allConcrete arguments
  | .object _ _ _ => false

def Expr.allConcrete : List Expr → Bool
  | [] => true
  | e :: es => e.isConcrete && Expr.allConcrete es

end

mutual

/-- The parameters, the result and all of the body have concrete types. -/
def Definition.isConcrete : Definition → Bool
  | ⟨_, _, params, returns, body⟩ =>
    params.all (fun p => p.ty.isConcrete) && returns.isConcrete && Stmt.allConcrete body

def Stmt.isConcrete : Stmt → Bool
  | ⟨_, kind⟩ => kind.isConcrete

def StmtKind.isConcrete : StmtKind → Bool
  | .letVar ⟨_, _, _, none⟩ => false
  | .letVar ⟨_, _, ty, some value⟩ => ty.isConcrete && value.isConcrete
  | .defFun definition => definition.isConcrete
  | .ifElse condition thenBody elseBody =>
    condition.isConcrete && Stmt.allConcrete thenBody && Stmt.allConcrete elseBody
  | .forEach _ ty iterable body =>
    ty.isConcrete && iterable.isConcrete && Stmt.allConcrete body
  | .returns none => true
  | .returns (some value) => value.isConcrete
  | .expr expression => expression.isConcrete
  | .assignVariable _ ty value => ty.isConcrete && value.isConcrete
  | .assignProperty receiver _ ty value =>
    receiver.isConcrete && ty.isConcrete && value.isConcrete

def Stmt.allConcrete : List Stmt → Bool
  | [] => true
  | s :: ss => s.isConcrete && Stmt.allConcrete ss

end

end Typed

/-! ## Steady scripts -/

/-- Whether a name may be declared in a block where `held` are the names that functions defined
before capture: it is not visible, or it keeps its type, or none of them captures it. -/
def Env.admits (Γ : Env) (held : List String) (entry : String × Ty) : Bool :=
  Meanings.admits Γ.find? held entry.1 entry.2

namespace Typed

mutual

/-- `Γ` says what is in scope, and `held` which names functions defined before in the block
capture. -/
def Stmt.isSteady (Γ : Env) (held : List String) : Stmt → Bool
  | ⟨_, kind⟩ => kind.isSteady Γ held

/-- What a statement declares is admitted while the names in `held` are in use, and the blocks in it
are steady. -/
def StmtKind.isSteady (Γ : Env) (held : List String) : StmtKind → Bool
  | .letVar binding => Γ.admits held binding.entry
  | .defFun definition => Γ.admits held definition.entry && definition.isSteady Γ
  | .ifElse _ thenBody elseBody =>
    Stmt.allSteady (Γ.inside []) [] thenBody && Stmt.allSteady (Γ.inside []) [] elseBody
  | .forEach name ty _ body => Stmt.allSteady (Γ.inside [(name, ty)]) [] body
  | _ => true

/-- The body of a function is a block of its own. -/
def Definition.isSteady (Γ : Env) : Definition → Bool
  | ⟨id, name, params, returns, body⟩ =>
    Stmt.allSteady (Γ.body none ⟨id, name, params, returns, body⟩) [] body

def Stmt.allSteady (Γ : Env) (held : List String) : List Stmt → Bool
  | [] => true
  | s :: ss => s.isSteady Γ held && Stmt.allSteady (Γ.after s.kind) (s.captures ++ held) ss

end

end Typed

/-! ## Definitions with their typed forms -/

mutual

/-- The definitions in a statement, those in bodies included, with their typed forms. Methods are
left aside. -/
def Stmt.definitions : Stmt → Typed.Stmt → List (Definition × Typed.Definition)
  | ⟨_, kind⟩, t => kind.definitions t.kind

def StmtKind.definitions : StmtKind → Typed.StmtKind → List (Definition × Typed.Definition)
  | .defFun ⟨name, params, returns, body⟩, .defFun d =>
    (⟨name, params, returns, body⟩, d) :: Stmt.allDefinitions body d.body
  | .ifElse _ thenBody elseBody, .ifElse _ a b =>
    Stmt.allDefinitions thenBody a ++ Stmt.allDefinitions elseBody b
  | .forEach _ _ body, .forEach _ _ _ b => Stmt.allDefinitions body b
  | _, _ => []

def Stmt.allDefinitions : List Stmt → List Typed.Stmt → List (Definition × Typed.Definition)
  | s :: ss, t :: ts => s.definitions t ++ Stmt.allDefinitions ss ts
  | _, _ => []

end

theorem StmtKind.definitions_defFun (d : Definition) (t : Typed.Definition) :
    (defFun d).definitions (.defFun t) = (d, t) :: Stmt.allDefinitions d.body t.body := by
  obtain ⟨name, params, returns, body⟩ := d
  rw [definitions]

/-! ### Nodes -/

namespace Typed

theorem Expr.isConcrete_iff {t : Expr} :
    t.isConcrete = true ↔ t.ty.isConcrete = true ∧ t.kind.isConcrete = true := by
  obtain ⟨id, ty, kind⟩ := t
  rw [isConcrete, Bool.and_eq_true]

theorem Definition.isConcrete_iff {d : Definition} : d.isConcrete = true ↔
    (∀ p ∈ d.params, p.ty.isConcrete = true) ∧ d.returns.isConcrete = true ∧
      Stmt.allConcrete d.body = true := by
  obtain ⟨id, name, params, returns, body⟩ := d
  rw [isConcrete, Bool.and_eq_true, Bool.and_eq_true, List.all_eq_true, and_assoc]

theorem Definition.isSteady_eq (Γ : Env) (d : Definition) :
    d.isSteady Γ = Stmt.allSteady (Γ.body none d) [] d.body := by
  obtain ⟨id, name, params, returns, body⟩ := d
  rw [isSteady]

/-- A `LET` of a concrete script has an initial value of its type. -/
theorem StmtKind.isConcrete_letVar {b : Binding} (concrete : (letVar b).isConcrete = true) :
    b.ty.isConcrete = true ∧ ∃ t, b.value = some t ∧ t.isConcrete = true := by
  obtain ⟨id, name, ty, value⟩ := b
  cases value with
  | none => cases concrete
  | some t =>
    rw [isConcrete, Bool.and_eq_true] at concrete
    exact ⟨concrete.1, t, rfl, concrete.2⟩

theorem Stmt.isConcrete_eq (s : Stmt) : s.isConcrete = s.kind.isConcrete := by
  obtain ⟨id, kind⟩ := s
  rw [isConcrete]

theorem Stmt.isSteady_eq (Γ : Env) (held : List String) (s : Stmt) :
    s.isSteady Γ held = s.kind.isSteady Γ held := by
  obtain ⟨id, kind⟩ := s
  rw [isSteady]

end Typed

end GradualScript
