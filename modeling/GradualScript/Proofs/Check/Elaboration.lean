/-
# GradualScript.Proofs.Check.Elaboration -- scripts and their typed scripts, as a relation

The checker computes a typed script while it changes a heap. Here the same rules are stated as a
relation between a script and a typed script, without any state: what is in scope at a node is a
list of names with their types (`Env`), and every judgement about object types is about one heap
`H`, the heap that checking ends with.

One kind of judgement cannot be made in `H`. A member is looked up while its object may still be
under construction, and an object that gets the member later hides what its prototype had under
that name. `HasMember` therefore speaks of some heap that `H` has grown from.

The relation is what the properties of accepted scripts are derived from: the typing of the typed
script alone, and the simulations between a script's typing and its runs.
-/

import GradualScript.Proofs.Check.Frame

namespace GradualScript

/-! ## What is in scope -/

/-- What is in scope at a node, with types. -/
structure Env where
  /-- What the active scope binds itself. -/
  own : List (String × Ty)
  /-- What the scopes around it bind, innermost first. -/
  outer : List (String × Ty)
  /-- What annotations are resolved in, if not in the names above. -/
  annotations : Option (List (String × Ty))
  /-- The declared result of the enclosing function. -/
  returns : Option Ty

namespace Env

/-- Everything that a lookup sees, innermost first. -/
def bound (Γ : Env) : List (String × Ty) := Γ.own ++ Γ.outer

def find? (Γ : Env) (name : String) : Option Ty := Γ.bound.lookup name

/-- What annotations are resolved in. -/
def annotated (Γ : Env) : List (String × Ty) := Γ.annotations.getD Γ.bound

/-- `t` is what an optional annotation stands for; without one, `Dynamic`. -/
def Denotes (Γ : Env) : Option String → Ty → Prop
  | none, t => t = .dynamic
  | some name, t => Γ.annotated.lookup name = some t

/-- A new scope inside, that binds `own`. -/
def inside (Γ : Env) (own : List (String × Ty)) : Env := { Γ with own := own, outer := Γ.bound }

/-- The active scope binds one name more. -/
def declare (Γ : Env) (name : String) (t : Ty) : Env := { Γ with own := Γ.own ++ [(name, t)] }

/-- The member scope of an object that has these members so far. -/
def members (Γ : Env) (own : List (String × Ty)) : Env where
  own := own
  outer := []
  annotations := some Γ.annotated
  returns := none

theorem find?_declare_of_ne {Γ : Env} {n m : String} {t : Ty} (ne : m ≠ n) :
    (Γ.declare n t).find? m = Γ.find? m := by
  have differ : (m == n) = false := by simpa using ne
  simp only [find?, bound, declare, List.lookup_append, List.lookup_cons, differ, List.lookup_nil,
    Option.or_none]

/-- A name is found in the active scope or around it. -/
theorem mem_own_or_outer {Γ : Env} {n : String} {t : Ty} (found : Γ.find? n = some t) :
    n ∈ Γ.own.map Prod.fst ∨ Γ.outer.lookup n = some t := by
  rw [find?, bound, List.lookup_append, Option.or_eq_some_iff] at found
  rcases found with own | ⟨_, outer⟩
  · obtain ⟨before, after, same, _⟩ := List.lookup_eq_some_iff.mp own
    left
    rw [same]
    simp
  · exact Or.inr outer

theorem find?_declare_self {Γ : Env} {n : String} (fresh : n ∉ Γ.own.map Prod.fst) (t : Ty) :
    (Γ.declare n t).find? n = some t := by
  simp only [find?, bound, declare, List.lookup_append, lookup_eq_none_of_not_mem fresh,
    List.lookup_cons, beq_self_eq_true, Option.none_or, Option.some_or]

theorem find?_declare_cases {Γ : Env} {n m : String} {t u : Ty}
    (found : (Γ.declare n t).find? m = some u) : Γ.find? m = some u ∨ m = n ∧ u = t := by
  by_cases same : m = n
  · subst same
    rw [find?, bound, declare, List.append_assoc, List.lookup_append] at found
    rw [find?, bound, List.lookup_append]
    cases own : Γ.own.lookup m with
    | some v =>
      rw [own, Option.some_or] at found
      left
      rw [Option.some_or, found]
    | none =>
      rw [own, Option.none_or, List.singleton_append, List.lookup_cons_self] at found
      exact Or.inr ⟨rfl, (Option.some.inj found).symm⟩
  · rw [find?_declare_of_ne same] at found
    exact Or.inl found

theorem find?_inside (Γ : Env) (own : List (String × Ty)) (n : String) :
    (Γ.inside own).find? n = (own.lookup n).or (Γ.find? n) := by
  rw [find?, bound, List.lookup_append]
  rfl

end Env

namespace Typed

def Param.entry (p : Param) : String × Ty := (p.name, p.ty)

def Binding.entry (b : Binding) : String × Ty := (b.name, b.ty)

def Definition.entry (d : Definition) : String × Ty := (d.name, d.ty)

/-- The names of the parameters, in order. -/
def Definition.paramNames (d : Definition) : List String := d.params.map Param.name

/-- What a statement adds to the active scope. -/
def StmtKind.entries : StmtKind → List (String × Ty)
  | .letVar b => [b.entry]
  | .defFun d => [d.entry]
  | _ => []

end Typed

namespace Env

/-- The active scope after a statement. -/
def after (Γ : Env) (k : Typed.StmtKind) : Env := { Γ with own := Γ.own ++ k.entries }

/-- The active scope after statements. -/
def afterAll (Γ : Env) (ts : List Typed.Stmt) : Env := ts.foldl (fun Γ t => Γ.after t.kind) Γ

theorem after_of_entries {Γ : Env} {k : Typed.StmtKind} (none : k.entries = []) :
    Γ.after k = Γ := by
  rw [after, none, List.append_nil]

/-- What the body of a definition sees: its parameters, in a method `this` before them, and around
them the scope of the definition, which binds the definition itself. -/
def body (Γ : Env) (this : Option Ty) (d : Typed.Definition) : Env :=
  { (Γ.declare d.name d.ty).inside
      ((this.map fun t => ("this", t)).toList ++ d.params.map Typed.Param.entry) with
    returns := some d.returns }

end Env

/-! ## Judgements about object types -/

/-- A member is bound in some scope that the prototypes of the object lead to, or a `Dynamic`
prototype there lends it. What holds of the object and passes on to prototypes holds of that
scope. -/
theorem Ty.exists_of_lookupWithin {h : Heap Ty} {name : String} {t : Ty} {P : ScopeId → Prop}
    (passes : ∀ m own p, prototype? h m = some (.object own p) → P m → P p) :
    ∀ {n : Nat} {m : ScopeId}, P m → lookupWithin h name n m = some t →
      ∃ s, P s ∧ (h.resolveLocal s name = some t ∨ t = .dynamic ∧ prototype? h s = some .dynamic)
  | 0, _, _, found => by simp [lookupWithin] at found
  | n + 1, m, here, found => by
    rw [lookupWithin] at found
    split at found
    case h_1 own =>
      obtain rfl := Option.some.inj found
      exact ⟨m, here, Or.inl own⟩
    case h_2 =>
      split at found
      case h_1 own p link => exact exists_of_lookupWithin passes (passes m own p link here) found
      case h_2 link => exact ⟨m, here, Or.inr ⟨(Option.some.inj found).symm, link⟩⟩
      case h_3 => cases found


/-- A receiver of type `receiver` had the member `name`, of type `t`, in a heap that `H` has grown
from. -/
def HasMember (H : Heap Ty) (receiver : Ty) (name : String) (use : MemberUse) (t : Ty) : Prop :=
  ∃ h, h.Keeps Set.univ H ∧ Check.memberType h receiver name use = .ok t

/-- Arguments go with parameters: equally many, and each of a subtype of its parameter. -/
def Accepts (H : Heap Ty) (params : List Ty) (arguments : List Typed.Expr) : Prop :=
  List.Forall₂ (fun t p => t.ty.isSubtype H p = true) arguments params

/-- A parameter and its typed form. -/
def Param.Elaborates (Γ : Env) (p : Param) (t : Typed.Param) : Prop :=
  t.name = p.name ∧ Γ.Denotes p.ty t.ty

/-! ## The relation -/

mutual

def Expr.Elaborates (H : Heap Ty) (Γ : Env) : Expr → Typed.Expr → Prop
  | ⟨node, kind⟩, t => t.id = node.id ∧ kind.Elaborates H Γ t.kind t.ty

def ExprKind.Elaborates (H : Heap Ty) (Γ : Env) : ExprKind → Typed.ExprKind → Ty → Prop
  | .literal value, k, ty => k = .literal value ∧ ty = value.ty
  | .group inner, k, ty => ∃ t, k = .group t ∧ inner.Elaborates H Γ t ∧ ty = t.ty
  | .binary op left right, k, ty => ∃ l r, k = .binary op l r ∧
      left.Elaborates H Γ l ∧ right.Elaborates H Γ r ∧ op.type H l.ty r.ty = .ok ty
  | .variable name, k, ty => k = .variable name ∧ Γ.find? name = some ty
  | .property receiver name, k, ty => ∃ r, k = .property r name ∧
      receiver.Elaborates H Γ r ∧ HasMember H r.ty name .property ty
  | .call name arguments, k, ty => ∃ params ts, k = .call name ts ∧
      Γ.find? name = some (.function params ty) ∧
      Expr.ElaborateAll H Γ arguments ts ∧ Accepts H params ts
  | .invoke receiver name arguments, k, ty => ∃ r ts, k = .invoke r name ts ∧
      receiver.Elaborates H Γ r ∧ Expr.ElaborateAll H Γ arguments ts ∧
      (HasMember H r.ty name .method .dynamic ∧ ty = .dynamic ∨
        ∃ params, HasMember H r.ty name .method (.function params ty) ∧ Accepts H params ts)
  | .object name fields methods, k, ty => ∃ members bs ds, k = .object name bs ds ∧
      ty = .object name members ∧ members < H.size ∧ H.parent? members = none ∧
      (H.bindings members).entries =
        bs.map Typed.Binding.entry ++ ds.map Typed.Definition.entry ∧
      Field.ElaborateAll H Γ fields bs ∧
      Method.ElaborateAll H (Γ.members (bs.map Typed.Binding.entry)) ty methods ds

def Expr.ElaborateAll (H : Heap Ty) (Γ : Env) : List Expr → List Typed.Expr → Prop
  | [], ts => ts = []
  | e :: es, ts => ∃ t rest, ts = t :: rest ∧ e.Elaborates H Γ t ∧
      Expr.ElaborateAll H Γ es rest

/-- A binding at node `id`. Without an annotation it has the type of its initial value. -/
def Binding.Elaborates (H : Heap Ty) (Γ : Env) (id : NodeId) : Binding → Typed.Binding → Prop
  | ⟨name, ty, none⟩, b => b.id = id ∧ b.name = name ∧ b.value = none ∧ Γ.Denotes ty b.ty
  | ⟨name, ty, some e⟩, b => b.id = id ∧ b.name = name ∧ ∃ t, b.value = some t ∧
      e.Elaborates H Γ t ∧ t.ty.isSubtype H b.ty = true ∧
      (ty = none ∧ b.ty = t.ty ∨ ty.isSome = true ∧ Γ.Denotes ty b.ty)

def Field.ElaborateAll (H : Heap Ty) (Γ : Env) : List Field → List Typed.Binding → Prop
  | [], bs => bs = []
  | ⟨node, binding⟩ :: rest, bs => ∃ b more, bs = b :: more ∧
      binding.Elaborates H Γ node.id b ∧ Field.ElaborateAll H Γ rest more

/-- A definition at node `id`; `this` is the type of the object around a method. -/
def Definition.Elaborates (H : Heap Ty) (Γ : Env) (id : NodeId) (this : Option Ty) :
    Definition → Typed.Definition → Prop
  | ⟨name, params, returns, body⟩, d => d.id = id ∧ d.name = name ∧
      Γ.Denotes returns d.returns ∧ List.Forall₂ (Param.Elaborates Γ) params d.params ∧
      d.paramNames.Nodup ∧ (this.isSome = true → "this" ∉ d.paramNames) ∧
      name ∉ Γ.own.map Prod.fst ∧ Stmt.ElaborateAll H (Γ.body this d) body d.body

def Method.ElaborateAll (H : Heap Ty) (Γ : Env) (this : Ty) :
    List Method → List Typed.Definition → Prop
  | [], ds => ds = []
  | ⟨node, definition⟩ :: rest, ds => ∃ d more, ds = d :: more ∧
      definition.Elaborates H Γ node.id (some this) d ∧
      Method.ElaborateAll H (Γ.declare d.name d.ty) this rest more

def Stmt.Elaborates (H : Heap Ty) (Γ : Env) : Stmt → Typed.Stmt → Prop
  | ⟨node, kind⟩, t => t.id = node.id ∧ kind.Elaborates H Γ node.id t.kind

def StmtKind.Elaborates (H : Heap Ty) (Γ : Env) (id : NodeId) :
    StmtKind → Typed.StmtKind → Prop
  | .letVar binding, k => ∃ b, k = .letVar b ∧ binding.Elaborates H Γ id b ∧
      b.name ∉ Γ.own.map Prod.fst
  | .defFun definition, k => ∃ d, k = .defFun d ∧ definition.Elaborates H Γ id none d
  | .ifElse condition thenBody elseBody, k => ∃ c a b, k = .ifElse c a b ∧
      condition.Elaborates H Γ c ∧ BinaryOp.isBooleanLike c.ty = true ∧
      Stmt.ElaborateAll H (Γ.inside []) thenBody a ∧
      Stmt.ElaborateAll H (Γ.inside []) elseBody b
  | .forEach name iterable body, k => ∃ ty i b, k = .forEach name ty i b ∧
      iterable.Elaborates H Γ i ∧ i.ty.isSubtype H .iterable = true ∧
      ty = (if i.ty.isDynamic then .dynamic else .integer) ∧
      Stmt.ElaborateAll H (Γ.inside [(name, ty)]) body b
  | .returns none, k => ∃ expected, k = .returns none ∧ Γ.returns = some expected ∧
      Ty.nil.isSubtype H expected = true
  | .returns (some e), k => ∃ expected t, k = .returns (some t) ∧ Γ.returns = some expected ∧
      e.Elaborates H Γ t ∧ t.ty.isSubtype H expected = true
  | .expr e, k => ∃ t, k = .expr t ∧ e.Elaborates H Γ t
  | .assign ⟨_, .variable name⟩ value, k => ∃ ty t, k = .assignVariable name ty t ∧
      Γ.find? name = some ty ∧ value.Elaborates H Γ t ∧ t.ty.isSubtype H ty = true
  | .assign ⟨_, .property receiver name⟩ value, k => ∃ r ty t,
      k = .assignProperty r name ty t ∧ receiver.Elaborates H Γ r ∧
      HasMember H r.ty name .property ty ∧ value.Elaborates H Γ t ∧
      t.ty.isSubtype H ty = true
  | .assign _ _, _ => False

/-- Each statement sees what the ones before it have added to the active scope. -/
def Stmt.ElaborateAll (H : Heap Ty) (Γ : Env) : List Stmt → List Typed.Stmt → Prop
  | [], ts => ts = []
  | s :: rest, ts => ∃ t more, ts = t :: more ∧ s.Elaborates H Γ t ∧
      Stmt.ElaborateAll H (Γ.after t.kind) rest more

end

/-! ## Names -/

variable {H : Heap Ty} {Γ : Env} {id : NodeId}

theorem Binding.Elaborates.name_eq {b : Binding} {t : Typed.Binding}
    (elaborates : b.Elaborates H Γ id t) : t.name = b.name := by
  obtain ⟨name, ty, value⟩ := b
  cases value <;> rw [Binding.Elaborates] at elaborates <;> exact elaborates.2.1

/-- What is assigned to is a variable or a property, and its type is above that of the value. -/
theorem StmtKind.Elaborates.assign {node : NodeRef} {kind : ExprKind} {value : Expr}
    {k : Typed.StmtKind} (elaborates : StmtKind.Elaborates H Γ id (.assign ⟨node, kind⟩ value) k) :
    ∃ ty t, value.Elaborates H Γ t ∧ t.ty.isSubtype H ty = true ∧
      ((∃ name, kind = .variable name ∧ k = .assignVariable name ty t ∧ Γ.find? name = some ty) ∨
        ∃ receiver name r, kind = .property receiver name ∧ k = .assignProperty r name ty t ∧
          receiver.Elaborates H Γ r ∧ HasMember H r.ty name .property ty) := by
  cases kind with
  | «variable» name =>
    rw [StmtKind.Elaborates] at elaborates
    obtain ⟨ty, t, rfl, bound, value, below⟩ := elaborates
    exact ⟨ty, t, value, below, Or.inl ⟨name, rfl, rfl, bound⟩⟩
  | property receiver name =>
    rw [StmtKind.Elaborates] at elaborates
    obtain ⟨r, ty, t, rfl, receiverOk, has, value, below⟩ := elaborates
    exact ⟨ty, t, value, below, Or.inr ⟨receiver, name, r, rfl, rfl, receiverOk, has⟩⟩
  | _ =>
    rw [StmtKind.Elaborates] at elaborates
    · exact elaborates.elim
    all_goals simp

theorem Definition.Elaborates.name_eq {this : Option Ty} {d : Definition} {t : Typed.Definition}
    (elaborates : d.Elaborates H Γ id this t) : t.name = d.name := by
  obtain ⟨name, params, returns, body⟩ := d
  rw [Definition.Elaborates] at elaborates
  exact elaborates.2.1

/-- A definition does not hide one of the same scope. -/
theorem Definition.Elaborates.fresh {this : Option Ty} {d : Definition} {t : Typed.Definition}
    (elaborates : d.Elaborates H Γ id this t) : d.name ∉ Γ.own.map Prod.fst := by
  obtain ⟨name, params, returns, body⟩ := d
  rw [Definition.Elaborates] at elaborates
  exact elaborates.2.2.2.2.2.2.1

theorem Definition.Elaborates.body {this : Option Ty} {d : Definition} {t : Typed.Definition}
    (elaborates : d.Elaborates H Γ id this t) :
    Stmt.ElaborateAll H (Γ.body this t) d.body t.body := by
  obtain ⟨name, params, returns, body⟩ := d
  rw [Definition.Elaborates] at elaborates
  exact elaborates.2.2.2.2.2.2.2

/-- A typed statement adds to the active scope what the statement declares. -/
theorem StmtKind.Elaborates.names_entries {x : StmtKind} {k : Typed.StmtKind}
    (elaborates : x.Elaborates H Γ id k) : k.entries.map Prod.fst = x.declares?.toList := by
  cases x with
  | letVar b =>
    rw [StmtKind.Elaborates] at elaborates
    obtain ⟨t, rfl, bound, _⟩ := elaborates
    exact congrArg (fun n => [n]) bound.name_eq
  | defFun d =>
    rw [StmtKind.Elaborates] at elaborates
    obtain ⟨t, rfl, defined⟩ := elaborates
    exact congrArg (fun n => [n]) defined.name_eq
  | ifElse condition thenBody elseBody =>
    rw [StmtKind.Elaborates] at elaborates
    obtain ⟨_, _, _, rfl, _⟩ := elaborates
    rfl
  | forEach name iterable body =>
    rw [StmtKind.Elaborates] at elaborates
    obtain ⟨_, _, _, rfl, _⟩ := elaborates
    rfl
  | returns value =>
    cases value with
    | none =>
      rw [StmtKind.Elaborates] at elaborates
      obtain ⟨_, rfl, _⟩ := elaborates
      rfl
    | some e =>
      rw [StmtKind.Elaborates] at elaborates
      obtain ⟨_, _, rfl, _⟩ := elaborates
      rfl
  | expr e =>
    rw [StmtKind.Elaborates] at elaborates
    obtain ⟨_, rfl, _⟩ := elaborates
    rfl
  | assign target value =>
    obtain ⟨node, kind⟩ := target
    obtain ⟨_, _, _, _, ⟨_, _, rfl, _⟩ | ⟨_, _, _, _, rfl, _⟩⟩ := elaborates.assign <;> rfl

theorem StmtKind.Elaborates.entries_eq_nil {x : StmtKind} {k : Typed.StmtKind}
    (elaborates : x.Elaborates H Γ id k) (none : x.declares? = none) : k.entries = [] := by
  have names := elaborates.names_entries
  rw [none] at names
  exact List.map_eq_nil_iff.mp names

/-- What a body binds before it runs has different names. -/
theorem Definition.Elaborates.nodup_own {this : Option Ty} {d : Definition} {t : Typed.Definition}
    (elaborates : d.Elaborates H Γ id this t) : ((Γ.body this t).own.map Prod.fst).Nodup := by
  obtain ⟨name, params, returns, body⟩ := d
  rw [Definition.Elaborates] at elaborates
  obtain ⟨_, _, _, _, nodup, apart, _⟩ := elaborates
  have names : (t.params.map Typed.Param.entry).map Prod.fst = t.paramNames := by
    rw [List.map_map]
    rfl
  show (((this.map fun t => ("this", t)).toList ++ t.params.map Typed.Param.entry).map
    Prod.fst).Nodup
  rw [List.map_append, names]
  cases this with
  | none => exact nodup
  | some t => exact List.nodup_cons.mpr ⟨apart rfl, nodup⟩

theorem Param.Elaborates.names_eq {ps : List Param} {ts : List Typed.Param}
    (all : List.Forall₂ (Param.Elaborates Γ) ps ts) :
    ts.map Typed.Param.name = ps.map Param.name := by
  induction all with
  | nil => rfl
  | cons first _ ih => rw [List.map_cons, List.map_cons, first.1, ih]

theorem Definition.Elaborates.paramNames_eq {this : Option Ty} {d : Definition}
    {t : Typed.Definition} (elaborates : d.Elaborates H Γ id this t) :
    t.paramNames = d.paramNames := by
  obtain ⟨name, params, returns, body⟩ := d
  rw [Definition.Elaborates] at elaborates
  exact Param.Elaborates.names_eq elaborates.2.2.2.1

end GradualScript
