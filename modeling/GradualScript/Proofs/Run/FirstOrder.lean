/-
# GradualScript.Proofs.Run.FirstOrder -- scripts without definitions and objects

Scripts of the first-order fragment declare variables with initial values, branch, loop, assign
variables and call the builtins by name; they leave alone `log` and the names of the primitive
types. On this fragment checking is sound: an accepted script comes to its end or divides by zero,
whatever depth of calls is granted, and its variables then hold values of their types.

The proof keeps a heap of types beside the heap of values (`Heap.Mirrors`). Expressions change
neither heap. A statement grows both, in the same places, and assigning a variable changes the heap
of values alone. The chains of the checker and of the run differ, since a run gives a loop two
scopes for each element and the checker one for all; what they have in common is what a lookup
finds.
-/

import GradualScript.Proofs.Check.Accepted
import GradualScript.Proofs.Run.Ground
import GradualScript.Proofs.Run.Mirror

namespace GradualScript

/-! ## The fragment -/

/-- Names that the fragment leaves alone. -/
def reservedNames : List String := "log" :: Primitive.all.map Primitive.name

/-- A name that scripts of the fragment may use. -/
def isUsable (name : String) : Bool := !reservedNames.contains name

/-- The types that scripts of the fragment annotate with. -/
def firstOrderTypes : List String :=
  ["Nil", "Boolean", "Integer", "Decimal", "Character", "String", "Iterable"]

mutual

def Expr.isFirstOrder : Expr → Bool
  | ⟨_, kind⟩ => kind.isFirstOrder

/-- Literals, groups, operators, variables and calls by name. -/
def ExprKind.isFirstOrder : ExprKind → Bool
  | .literal _ => true
  | .group inner => inner.isFirstOrder
  | .binary _ left right => left.isFirstOrder && right.isFirstOrder
  | .variable name => isUsable name
  | .call name arguments => isUsable name && Expr.allFirstOrder arguments
  | _ => false

def Expr.allFirstOrder : List Expr → Bool
  | [] => true
  | e :: es => e.isFirstOrder && Expr.allFirstOrder es

end

mutual

def Stmt.isFirstOrder : Stmt → Bool
  | ⟨_, kind⟩ => kind.isFirstOrder

/-- Declarations with an initial value, branches, loops, expressions, and assignments to
variables. -/
def StmtKind.isFirstOrder : StmtKind → Bool
  | .letVar ⟨name, ty, some value⟩ =>
    isUsable name && ty.all firstOrderTypes.contains && value.isFirstOrder
  | .ifElse condition thenBody elseBody =>
    condition.isFirstOrder && Stmt.allFirstOrder thenBody && Stmt.allFirstOrder elseBody
  | .forEach name iterable body =>
    isUsable name && iterable.isFirstOrder && Stmt.allFirstOrder body
  | .expr expression => expression.isFirstOrder
  | .assign ⟨_, .variable name⟩ value => isUsable name && value.isFirstOrder
  | _ => false

def Stmt.allFirstOrder : List Stmt → Bool
  | [] => true
  | s :: ss => s.isFirstOrder && Stmt.allFirstOrder ss

end

def Script.isFirstOrder (p : Script) : Bool := Stmt.allFirstOrder p.statements

/-! ## Ground environments -/

variable {H : Heap Ty} {Γ : Env}

/-- What the fragment can name has a ground type. -/
def Env.Ground (Γ : Env) : Prop :=
  ∀ n t, isUsable n = true → Γ.find? n = some t → t ∈ Ty.ground

/-- The result of a ground function type is ground. -/
theorem Ty.returns_ground {params : List Ty} {returns : Ty}
    (mem : Ty.function params returns ∈ Ty.ground) : returns ∈ Ty.ground := by
  simp only [ground, List.mem_cons, reduceCtorEq, function.injEq, List.not_mem_nil, or_false,
    false_or] at mem
  rcases mem with ⟨_, rfl⟩ | ⟨_, rfl⟩ <;> decide

mutual

/-- Expressions of the fragment have ground types. -/
theorem Expr.Elaborates.ground (names : Γ.Ground) : ∀ {e : Expr} {t : Typed.Expr},
    e.isFirstOrder = true → e.Elaborates H Γ t → t.ty ∈ Ty.ground
  | ⟨_, kind⟩, t, fragment, elaborates => by
    rw [Expr.isFirstOrder] at fragment
    rw [Expr.Elaborates] at elaborates
    exact ExprKind.Elaborates.ground names fragment elaborates.2

theorem ExprKind.Elaborates.ground (names : Γ.Ground) : ∀ {e : ExprKind} {t : Typed.ExprKind}
    {ty : Ty}, e.isFirstOrder = true → e.Elaborates H Γ t ty → ty ∈ Ty.ground
  | .literal value, t, ty, _, elaborates => by
    rw [ExprKind.Elaborates] at elaborates
    rw [elaborates.2]
    exact (Value.ofLiteral_hasType value).ground
  | .group inner, t, ty, fragment, elaborates => by
    rw [ExprKind.isFirstOrder] at fragment
    rw [ExprKind.Elaborates] at elaborates
    obtain ⟨_, _, elaborates, rfl⟩ := elaborates
    exact Expr.Elaborates.ground names fragment elaborates
  | .binary op left right, t, ty, fragment, elaborates => by
    rw [ExprKind.isFirstOrder, Bool.and_eq_true] at fragment
    rw [ExprKind.Elaborates] at elaborates
    obtain ⟨_, _, _, leftOk, rightOk, judged⟩ := elaborates
    exact BinaryOp.type_ground (Expr.Elaborates.ground names fragment.1 leftOk)
      (Expr.Elaborates.ground names fragment.2 rightOk) judged
  | .variable name, t, ty, fragment, elaborates => by
    rw [ExprKind.isFirstOrder] at fragment
    rw [ExprKind.Elaborates] at elaborates
    exact names name ty fragment elaborates.2
  | .call name arguments, t, ty, fragment, elaborates => by
    rw [ExprKind.isFirstOrder, Bool.and_eq_true] at fragment
    rw [ExprKind.Elaborates] at elaborates
    obtain ⟨_, _, _, found, _⟩ := elaborates
    exact Ty.returns_ground (names name _ fragment.1 found)
  | .property _ _, _, _, fragment, _ => by simp [ExprKind.isFirstOrder] at fragment
  | .invoke _ _ _, _, _, fragment, _ => by simp [ExprKind.isFirstOrder] at fragment
  | .object _ _ _, _, _, fragment, _ => by simp [ExprKind.isFirstOrder] at fragment

end

/-! ## Expressions -/

/-- What may stop a run of the fragment. -/
def Run.Divides (cause : Option EvalError) : Prop := cause = some .divisionByZero

/-- Usable names are bound to values of their types. -/
def Run.Named (n : String) (v : Value) (t : Ty) : Prop := isUsable n = true → v.HasType t

/-- Statements that were checked in `Γ` may run in `s`, where the heap of types is `T`. -/
structure Run.Agrees (T : Heap Ty) (h : Heap Value) (s : ScopeId) (Γ : Env) : Prop where
  inside : s < h.size
  found : ∀ n, isUsable n = true → T.resolve s n = Γ.find? n
  own : ∀ n ∈ (h.bindings s).names, n ∈ Γ.own.map Prod.fst
  annotations : Γ.annotations = none
  types : ∀ p : Primitive, Γ.find? p.name = some (.prim p)

namespace Run

variable {T : Heap Ty} {h : Heap Value} {s : ScopeId} {w : World} {call : Caller}

/-- A usable name is bound to a value of its static type. -/
theorem Agrees.value (agrees : Agrees T h s Γ) (mirrors : T.Mirrors Named h) {n : String} {t : Ty}
    (usable : isUsable n = true) (found : Γ.find? n = some t) :
    ∃ v, h.resolve s n = some v ∧ v.HasType t := by
  rw [← agrees.found n usable] at found
  obtain ⟨v, resolved, named⟩ := mirrors.resolve agrees.inside found
  exact ⟨v, resolved, named usable⟩

theorem Agrees.ground (agrees : Agrees T h s Γ) (mirrors : T.Mirrors Named h) : Γ.Ground := by
  intro n t usable found
  obtain ⟨_, _, typed⟩ := agrees.value mirrors usable found
  exact typed.ground

/-- A builtin of ground type, called with arguments of its parameters' types, does what its type
says. -/
theorem ends_builtin {f : Builtin} {params : List Ty} {returns : Ty} {arguments : List Value}
    {ts : List Typed.Expr} (same : f.ty? = some (.function params returns))
    (typed : List.Forall₂ (fun v t => v.HasType t.ty) arguments ts)
    (accepts : Accepts H params ts) :
    Ends Divides (f.apply arguments) w fun v w' => w'.heap = w.heap ∧ v.HasType returns := by
  cases f with
  | debug | print =>
    obtain ⟨rfl, rfl⟩ := Ty.function.inj (Option.some.inj same)
    cases accepts with
    | cons _ none =>
      cases none
      cases typed with
      | cons _ none =>
        cases none
        exact .read_bind (.write_bind (.pure ⟨rfl, rfl⟩))
  | range =>
    obtain ⟨rfl, rfl⟩ := Ty.function.inj (Option.some.inj same)
    cases accepts with
    | cons below rest =>
      cases rest with
      | cons below' none =>
        cases none
        cases typed with
        | cons first rest =>
          cases rest with
          | cons second none =>
            cases none
            have integer := Ty.eq_of_isSubtype_ground first.ground (by decide) below
            have integer' := Ty.eq_of_isSubtype_ground second.ground (by decide) below'
            rw [integer] at first
            rw [integer'] at second
            obtain ⟨a, rfl⟩ := first.exists_integer
            obtain ⟨b, rfl⟩ := second.exists_integer
            refine .pure ⟨rfl, rfl, fun v mem => ?_⟩
            obtain ⟨k, _, rfl⟩ := List.mem_map.mp mem
            exact ⟨_, rfl⟩
  | _ => cases same

mutual

/-- An expression of the fragment yields a value of its type, or divides by zero. It changes no
scope. -/
theorem evaluate_typed : ∀ {e : Expr} {t : Typed.Expr} {w : World}, e.isFirstOrder = true →
    e.Elaborates H Γ t → T.Mirrors Named w.heap → Agrees T w.heap s Γ →
    Ends Divides (evaluate call s e) w fun v w' => w'.heap = w.heap ∧ v.HasType t.ty
  | ⟨node, kind⟩, t, w, fragment, elaborates, mirrors, agrees => by
    rw [Expr.isFirstOrder] at fragment
    rw [Expr.Elaborates] at elaborates
    rw [evaluate]
    exact .located (evaluateKind_typed fragment elaborates.2 mirrors agrees)

theorem evaluateKind_typed : ∀ {e : ExprKind} {t : Typed.ExprKind} {ty : Ty} {w : World},
    e.isFirstOrder = true → e.Elaborates H Γ t ty → T.Mirrors Named w.heap →
    Agrees T w.heap s Γ →
    Ends Divides (evaluateKind call s e) w fun v w' => w'.heap = w.heap ∧ v.HasType ty
  | .literal value, t, ty, w, _, elaborates, _, _ => by
    rw [ExprKind.Elaborates] at elaborates
    rw [evaluateKind, elaborates.2]
    exact .pure ⟨rfl, Value.ofLiteral_hasType value⟩
  | .group inner, t, ty, w, fragment, elaborates, mirrors, agrees => by
    rw [ExprKind.isFirstOrder] at fragment
    rw [ExprKind.Elaborates] at elaborates
    obtain ⟨_, _, elaborates, rfl⟩ := elaborates
    rw [evaluateKind]
    exact evaluate_typed fragment elaborates mirrors agrees
  | .binary op left right, t, ty, w, fragment, elaborates, mirrors, agrees => by
    rw [ExprKind.isFirstOrder, Bool.and_eq_true] at fragment
    rw [ExprKind.Elaborates] at elaborates
    obtain ⟨_, tr, _, leftOk, rightOk, judged⟩ := elaborates
    -- The left operand is of its type, so nothing is said against it; against the right one nothing
    -- but that it is zero.
    have rightGround := rightOk.ground (agrees.ground mirrors) fragment.2
    refine .binary ((evaluate_typed fragment.1 leftOk mirrors agrees).mono ?_)
    rintro l w₁ ⟨same₁, leftTyped⟩
    refine ⟨fun cause fault => ?_, fun v decided =>
      ⟨same₁, BinaryOp.decided?_hasType leftTyped rightGround judged decided⟩, ?_⟩
    · rw [BinaryOp.leftFault?_eq_none leftTyped rightGround judged] at fault
      cases fault
    · rw [← same₁] at mirrors agrees ⊢
      refine (evaluate_typed fragment.2 rightOk mirrors agrees).mono ?_
      rintro r w₂ ⟨same₂, rightTyped⟩
      have promised := BinaryOp.combine_promised (h := w₂.heap) leftTyped rightTyped judged
      refine ⟨fun v ok => ?_, fun cause error => ?_⟩
      · rw [ok] at promised
        exact ⟨same₂, promised⟩
      · rw [error] at promised
        exact congrArg some promised
  | .variable name, t, ty, w, fragment, elaborates, mirrors, agrees => by
    rw [ExprKind.isFirstOrder] at fragment
    rw [ExprKind.Elaborates] at elaborates
    obtain ⟨v, found, typed⟩ := agrees.value mirrors fragment elaborates.2
    rw [evaluateKind]
    refine .read_bind ?_
    rw [found]
    exact .pure ⟨rfl, typed⟩
  | .call name arguments, t, ty, w, fragment, elaborates, mirrors, agrees => by
    rw [ExprKind.isFirstOrder, Bool.and_eq_true] at fragment
    rw [ExprKind.Elaborates] at elaborates
    obtain ⟨params, ts, _, bound, argumentsOk, accepts⟩ := elaborates
    obtain ⟨v, found, typed⟩ := agrees.value mirrors fragment.1 bound
    rw [evaluateKind]
    refine .read_bind ?_
    rw [found]
    cases v with
    | function f =>
      cases f with
      | closure f => exact typed.elim
      | builtin f =>
        refine .bind (evaluateAll_typed fragment.2 argumentsOk mirrors agrees) ?_
        rintro vs w₁ ⟨same, all⟩
        rw [← same]
        exact ends_builtin typed all accepts
    | iterable _ => cases typed.1
    | object _ _ => exact typed.elim
    | _ => cases typed
  | .property _ _, _, _, _, fragment, _, _, _ => by simp [ExprKind.isFirstOrder] at fragment
  | .invoke _ _ _, _, _, _, fragment, _, _, _ => by simp [ExprKind.isFirstOrder] at fragment
  | .object _ _ _, _, _, _, fragment, _, _, _ => by simp [ExprKind.isFirstOrder] at fragment

theorem evaluateAll_typed : ∀ {es : List Expr} {ts : List Typed.Expr} {w : World},
    Expr.allFirstOrder es = true → Expr.ElaborateAll H Γ es ts → T.Mirrors Named w.heap →
    Agrees T w.heap s Γ →
    Ends Divides (evaluateAll call s es) w fun vs w' =>
      w'.heap = w.heap ∧ List.Forall₂ (fun v t => v.HasType t.ty) vs ts
  | [], ts, w, _, elaborates, _, _ => by
    rw [Expr.ElaborateAll] at elaborates
    rw [evaluateAll, elaborates]
    exact .pure ⟨rfl, .nil⟩
  | e :: rest, ts, w, fragment, elaborates, mirrors, agrees => by
    rw [Expr.allFirstOrder, Bool.and_eq_true] at fragment
    rw [Expr.ElaborateAll] at elaborates
    obtain ⟨t, more, rfl, first, following⟩ := elaborates
    rw [evaluateAll]
    refine .bind (evaluate_typed fragment.1 first mirrors agrees) ?_
    rintro v w₁ ⟨same₁, typed⟩
    rw [← same₁] at mirrors agrees ⊢
    refine .bind (evaluateAll_typed fragment.2 following mirrors agrees) ?_
    rintro vs w₂ ⟨same₂, all⟩
    exact .pure ⟨same₂, .cons typed all⟩

end

/-! ## Statements -/

theorem ne_of_isUsable {n : String} (usable : isUsable n = true) (p : Primitive) : p.name ≠ n := by
  rintro rfl
  have reserved : p.name ∈ reservedNames :=
    List.mem_cons_of_mem _ (List.mem_map_of_mem p.mem_all)
  rw [isUsable, List.contains_iff_mem.mpr reserved] at usable
  cases usable

namespace Agrees

variable {T' : Heap Ty} {h' : Heap Value}

/-- New scopes and new values do not show. -/
theorem next (agrees : Agrees T h s Γ) (mirrors : T.Mirrors Named h) (keeps : T.Keeps ∅ T')
    (mirrors' : T'.Mirrors Named h') : Agrees T' h' s Γ where
  inside := by
    rw [← mirrors'.size]
    exact Nat.lt_of_lt_of_le (mirrors.size ▸ agrees.inside) keeps.size_le
  found n usable := by
    have inside : s < T.size := mirrors.size ▸ agrees.inside
    rw [← agrees.found n usable]
    refine Heap.resolve_congr (keeps.chain inside) fun t mem => ?_
    have old : t < T.size := Nat.lt_of_le_of_lt (Heap.le_of_mem_chain mem) inside
    rw [Heap.resolveLocal, keeps.same t old (Set.notMem_empty t), Heap.resolveLocal]
  own n bound := by
    have inside : s < T.size := mirrors.size ▸ agrees.inside
    rw [← mirrors'.names, keeps.same s inside (Set.notMem_empty s), mirrors.names] at bound
    exact agrees.own n bound
  annotations := agrees.annotations
  types := agrees.types

/-- In a new scope that binds what the environment adds. -/
theorem child (agrees : Agrees T h s Γ) (mirrors : T.Mirrors Named h) {b : Bindings Value}
    {c : Bindings Ty} (names : ∀ n ∈ b.names, n ∈ c.entries.map Prod.fst)
    (usable : ∀ n ∈ c.entries.map Prod.fst, isUsable n = true) :
    Agrees (T.child s c).2 (h.child s b).2 h.size (Γ.inside c.entries) where
  inside := Heap.lt_size_child h s _
  found n _ := by
    rw [← mirrors.size, Heap.resolve_child_self (mirrors.size ▸ agrees.inside), Env.find?_inside,
      agrees.found n ‹_›]
    rfl
  own n bound := by
    rw [Heap.bindings_child_self] at bound
    exact names n bound
  annotations := agrees.annotations
  types p := by
    have unbound : p.name ∉ c.entries.map Prod.fst := fun mem =>
      ne_of_isUsable (usable p.name mem) p rfl
    rw [Env.find?_inside, lookup_eq_none_of_not_mem unbound, Option.none_or]
    exact agrees.types p

/-- A scope that binds nothing sees what is around it. -/
theorem child_empty (agrees : Agrees T h s Γ) (mirrors : T.Mirrors Named h) :
    Agrees (T.child s .empty).2 (h.child s .empty).2 h.size Γ where
  inside := Heap.lt_size_child h s _
  found n usable := by
    rw [← mirrors.size, Heap.resolve_child_self (mirrors.size ▸ agrees.inside),
      agrees.found n usable]
    rfl
  own n bound := by simp at bound
  annotations := agrees.annotations
  types := agrees.types

/-- After a declaration in the active scope. -/
theorem put (agrees : Agrees T h s Γ) (mirrors : T.Mirrors Named h) {n : String}
    (usable : isUsable n = true) (fresh : n ∉ Γ.own.map Prod.fst) (t : Ty) (v : Value) :
    Agrees (T.put s n t) (h.put s n v) s (Γ.declare n t) where
  inside := by
    rw [Heap.size_put]
    exact agrees.inside
  found m usable' := by
    have inside : s < T.size := mirrors.size ▸ agrees.inside
    by_cases same : m = n
    · subst same
      rw [Env.find?_declare_self fresh, Heap.resolve_eq, Heap.resolveLocal_put inside,
        if_pos ⟨rfl, rfl⟩, Option.some_or]
    · rw [Env.find?_declare_of_ne same, ← agrees.found m usable']
      refine Heap.resolve_congr (Heap.chain_put ..) fun u _ => ?_
      rw [Heap.resolveLocal_put inside, if_neg fun here => same here.2]
  own m bound := by
    rw [Heap.mem_names_put agrees.inside] at bound
    rw [Env.declare, List.map_append, List.mem_append]
    rcases bound with ⟨_, rfl⟩ | bound
    · exact Or.inr (by simp)
    · exact Or.inl (agrees.own m bound)
  annotations := agrees.annotations
  types p := by
    rw [Env.find?_declare_of_ne (ne_of_isUsable usable p)]
    exact agrees.types p

end Agrees

/-- Annotations of the fragment stand for ground types. -/
theorem Agrees.denoted (agrees : Agrees T h s Γ) {name : String} {t : Ty}
    (mem : firstOrderTypes.contains name = true) (denotes : Γ.Denotes (some name) t) :
    t ∈ Ty.ground := by
  have named : ∃ p : Primitive, name = p.name ∧ Ty.prim p ∈ Ty.ground := by
    simp only [firstOrderTypes, List.contains_iff_mem, List.mem_cons, List.not_mem_nil,
      or_false] at mem
    rcases mem with rfl | rfl | rfl | rfl | rfl | rfl | rfl
    · exact ⟨.nil, rfl, by decide⟩
    · exact ⟨.boolean, rfl, by decide⟩
    · exact ⟨.integer, rfl, by decide⟩
    · exact ⟨.decimal, rfl, by decide⟩
    · exact ⟨.character, rfl, by decide⟩
    · exact ⟨.string, rfl, by decide⟩
    · exact ⟨.iterable, rfl, by decide⟩
  obtain ⟨p, rfl, ground⟩ := named
  have found : Γ.find? p.name = some t := by
    rw [Env.Denotes, Env.annotated, agrees.annotations] at denotes
    exact denotes
  rw [agrees.types p] at found
  exact Option.some.inj found ▸ ground

/-- The initial value of a declaration is of the declared type. -/
theorem Agrees.declared (agrees : Agrees T h s Γ) (mirrors : T.Mirrors Named h) {id : NodeId}
    {name : String} {ty : Option String} {e : Expr} {b : Typed.Binding}
    (elaborates : Binding.Elaborates H Γ id ⟨name, ty, some e⟩ b) (fragment : e.isFirstOrder = true)
    (annotated : ty.all firstOrderTypes.contains = true) :
    ∃ t, e.Elaborates H Γ t ∧ t.ty = b.ty := by
  rw [Binding.Elaborates] at elaborates
  obtain ⟨_, _, t, _, elaborates, below, declared⟩ := elaborates
  refine ⟨t, elaborates, ?_⟩
  rcases declared with ⟨_, same⟩ | ⟨given, denotes⟩
  · exact same.symm
  · obtain ⟨name, rfl⟩ := Option.isSome_iff_exists.mp given
    exact Ty.eq_of_isSubtype_ground (elaborates.ground (agrees.ground mirrors) fragment)
      (agrees.denoted annotated denotes) below

/-- How statements in `s` end: with a value, in heaps that the next ones may run in. -/
def Advances (T : Heap Ty) (s : ScopeId) (Γ : Env) (flow : Flow) (w : World) : Prop :=
  (∃ v, flow = .value v) ∧
    ∃ T', T.Keeps {s} T' ∧ T'.Mirrors Named w.heap ∧ Agrees T' w.heap s Γ

/-- Statements that end so have changed no old scope but `s`. -/
theorem Advances.of_inner {Δ : Env} {flow : Flow} {w' : World} (agrees : Agrees T h s Γ)
    (mirrors : T.Mirrors Named h) {inner : ScopeId} {T₁ : Heap Ty} (made : T.Keeps ∅ T₁)
    (young : T.size ≤ inner) (advances : Advances T₁ inner Δ flow w') :
    (∃ v, flow = .value v) ∧
      ∃ T', T.Keeps ∅ T' ∧ T'.Mirrors Named w'.heap ∧ Agrees T' w'.heap s Γ := by
  obtain ⟨value, T', keeps, mirrors', _⟩ := advances
  have whole : T.Keeps ∅ T' := made.trans_fresh keeps fun t same inside => by
    obtain rfl : t = inner := same
    exact absurd inside (Nat.not_lt.mpr young)
  exact ⟨value, T', whole, mirrors', agrees.next mirrors whole mirrors'⟩

/-- A statement that adds to no old scope, and declares nothing. -/
theorem Advances.of_keeps {k : Typed.StmtKind} {flow : Flow} {w' : World} (none : k.entries = [])
    (advanced : (∃ v, flow = .value v) ∧
      ∃ T', T.Keeps ∅ T' ∧ T'.Mirrors Named w'.heap ∧ Agrees T' w'.heap s Γ) :
    Advances T s (Γ.after k) flow w' := by
  obtain ⟨value, T', keeps, mirrors, agrees⟩ := advanced
  rw [Env.after_of_entries none]
  exact ⟨value, T', keeps.mono (Set.empty_subset _), mirrors, agrees⟩

theorem overElements_typed {name : String} {body : ScopeId → Run Flow} {Δ : Env}
    (usable : isUsable name = true)
    (bodyEnds : ∀ (inner : ScopeId) (T : Heap Ty) (w : World), T.Mirrors Named w.heap →
      Agrees T w.heap inner (Γ.inside [(name, .integer)]) →
      Ends Divides (body inner) w (Advances T inner Δ)) :
    ∀ {elements : List Value} {T : Heap Ty} {w : World}, (∀ v ∈ elements, ∃ n, v = .integer n) →
      T.Mirrors Named w.heap → Agrees T w.heap s Γ →
      Ends Divides (overElements s name body elements) w fun flow w' =>
        (∃ v, flow = .value v) ∧
          ∃ T', T.Keeps ∅ T' ∧ T'.Mirrors Named w'.heap ∧ Agrees T' w'.heap s Γ := by
  intro elements
  induction elements with
  | nil => exact fun _ mirrors agrees => .pure ⟨⟨_, rfl⟩, _, .refl _ _, mirrors, agrees⟩
  | cons v rest ih =>
    intro T w integers mirrors agrees
    obtain ⟨n, rfl⟩ := integers _ List.mem_cons_self
    have mirrors₁ : (T.child s (.ofList [(name, .integer)])).2.Mirrors Named
        (w.heap.child s (.ofList [(name, .integer n)])).2 := by
      refine mirrors.child agrees.inside ?_ fun m v t found bound _ => ?_
      · rw [Bindings.names_single, Bindings.names_single]
      · obtain ⟨_, rfl⟩ := Bindings.eq_of_find?_single found
        obtain ⟨_, rfl⟩ := Bindings.eq_of_find?_single bound
        rfl
    have agrees₁ := agrees.child (b := .ofList [(name, .integer n)])
      (c := .ofList [(name, .integer)]) mirrors
      (fun m mem => by
        rw [Bindings.names_single] at mem
        rw [Bindings.entries_single]
        exact mem)
      (fun m mem => by
        rw [Bindings.entries_single] at mem
        obtain rfl : m = name := by simpa using mem
        exact usable)
    rw [Bindings.entries_single] at agrees₁
    refine .child_bind (.child_bind (.bind
      (bodyEnds _ _ _ (mirrors₁.child_empty agrees₁.inside) (agrees₁.child_empty mirrors₁)) ?_))
    intro flow w₁ advances
    have made : T.Keeps ∅ ((T.child s (.ofList [(name, .integer)])).2.child w.heap.size .empty).2 :=
      (Heap.Keeps.child ∅ T s _).trans (.child ∅ _ _ _)
    have young : T.size ≤ (w.heap.child s (.ofList [(name, Value.integer n)])).2.size := by
      rw [mirrors.size]
      exact Nat.le_of_lt (Heap.lt_size_child ..)
    obtain ⟨⟨v, rfl⟩, T₁, keeps, mirrors₂, agrees₂⟩ :=
      Advances.of_inner agrees mirrors made young advances
    refine (ih (fun v mem => integers v (List.mem_cons_of_mem _ mem)) mirrors₂ agrees₂).mono ?_
    rintro flow w₂ ⟨value, T₂, keeps', ends⟩
    exact ⟨value, T₂, keeps.trans keeps', ends⟩

/-- Assigning a variable changes what one name is bound to, within its type. -/
theorem assign_typed {target : NodeRef} {name : String} {t : Ty} {v : Value}
    (mirrors : T.Mirrors Named w.heap) (agrees : Agrees T w.heap s Γ)
    (usable : isUsable name = true) (found : Γ.find? name = some t) (typed : v.HasType t) :
    Ends Divides (assign call s ⟨target, .variable name⟩ v) w fun _ w' =>
      T.Mirrors Named w'.heap := by
  rw [← agrees.found name usable, Heap.resolve_eq_owner?, mirrors.owner? agrees.inside] at found
  obtain ⟨owner, owned, bound⟩ := Option.bind_eq_some_iff.mp found
  unfold assign
  refine .read_bind ?_
  rw [owned]
  exact .put (mirrors.assign bound fun _ => typed)

/-- A block of `Γ` ends with the types that were found for it, wherever it runs. -/
def BlockTyped (call : Caller) (Γ : Env) (xs : List Stmt) (ts : List Typed.Stmt) : Prop :=
  ∀ {T : Heap Ty} {s : ScopeId} {w : World} {last : Value}, T.Mirrors Named w.heap →
    Agrees T w.heap s Γ → Ends Divides (block call s last xs) w (Advances T s (Γ.afterAll ts))

section Kinds

variable {id : NodeId} {k : Typed.StmtKind}

theorem letVar_typed {name : String} {ty : Option String} {value : Expr}
    (fragment : (StmtKind.letVar ⟨name, ty, some value⟩).isFirstOrder = true)
    (elaborates : (StmtKind.letVar ⟨name, ty, some value⟩).Elaborates H Γ id k)
    (mirrors : T.Mirrors Named w.heap) (agrees : Agrees T w.heap s Γ) :
    Ends Divides (executeKind call s (.letVar ⟨name, ty, some value⟩)) w
      (Advances T s (Γ.after k)) := by
  rw [StmtKind.isFirstOrder, Bool.and_eq_true, Bool.and_eq_true] at fragment
  obtain ⟨⟨usable, annotated⟩, valueFragment⟩ := fragment
  rw [StmtKind.Elaborates] at elaborates
  obtain ⟨b, rfl, bound, unbound⟩ := elaborates
  obtain ⟨t, valueOk, same⟩ := agrees.declared mirrors bound valueFragment annotated
  have name_eq : b.name = name := bound.name_eq
  rw [name_eq] at unbound
  rw [executeKind, evaluateOption]
  refine .bind (evaluate_typed valueFragment valueOk mirrors agrees) ?_
  rintro v w₁ ⟨heap, typed⟩
  rw [← heap] at mirrors agrees
  have fresh : name ∉ (w₁.heap.bindings s).names := fun mem => unbound (agrees.own name mem)
  refine .bind (.define fresh) ?_
  rintro _ _ rfl
  -- The heap of types binds the names that the heap of values binds.
  have free : T.binds s name = false := by
    rw [← Bool.not_eq_true, Heap.binds_iff, mirrors.names]
    exact fresh
  refine .pure ⟨⟨v, rfl⟩, T.put s name b.ty, .put free b.ty, ?_, ?_⟩
  · exact mirrors.put agrees.inside fun _ => same ▸ typed
  · have declared := agrees.put mirrors usable unbound b.ty v
    rw [← name_eq] at declared
    rw [← name_eq]
    exact declared

/-- A condition of a ground type is a Boolean, so one of the two blocks is run. -/
theorem ifElse_typed {condition : Expr} {thenBody elseBody : List Stmt} {c : Typed.Expr}
    {a b : List Typed.Stmt} (fragment : condition.isFirstOrder = true)
    (elaborates : condition.Elaborates H Γ c) (booleanLike : BinaryOp.isBooleanLike c.ty = true)
    (thenEnds : BlockTyped call (Γ.inside []) thenBody a)
    (elseEnds : BlockTyped call (Γ.inside []) elseBody b) (mirrors : T.Mirrors Named w.heap)
    (agrees : Agrees T w.heap s Γ) :
    Ends Divides (executeKind call s (.ifElse condition thenBody elseBody)) w
      (Advances T s (Γ.after (.ifElse c a b))) := by
  refine .ifElse ((evaluate_typed fragment elaborates mirrors agrees).mono ?_)
  rintro v w₁ ⟨heap, typed⟩
  rw [← heap] at mirrors agrees
  have boolean : c.ty = .boolean := by
    simp only [BinaryOp.isBooleanLike, Bool.or_eq_true, beq_iff_eq] at booleanLike
    exact booleanLike.resolve_right (Ty.ne_dynamic_of_ground typed.ground)
  rw [boolean] at typed
  obtain ⟨condition, rfl⟩ := typed.exists_boolean
  have mirrors₁ := mirrors.child_empty agrees.inside
  have agrees₁ : Agrees (T.child s .empty).2 (w₁.heap.child s .empty).2 w₁.heap.size
      (Γ.inside []) := agrees.child mirrors (by simp) (by simp [Bindings.empty])
  have made : T.Keeps ∅ (T.child s .empty).2 := .child ∅ T s .empty
  have young : T.size ≤ w₁.heap.size := Nat.le_of_eq mirrors.size
  refine ⟨fun _ => ?_, fun _ => ?_, fun other => absurd rfl other⟩
  · refine (thenEnds mirrors₁ agrees₁).mono ?_
    exact fun _ _ advances => .of_keeps rfl (advances.of_inner agrees mirrors made young)
  · refine (elseEnds mirrors₁ agrees₁).mono ?_
    exact fun _ _ advances => .of_keeps rfl (advances.of_inner agrees mirrors made young)

theorem forEach_typed {name : String} {ty : Ty} {iterable : Expr} {body : List Stmt}
    {i : Typed.Expr} {b : List Typed.Stmt} (usable : isUsable name = true)
    (fragment : iterable.isFirstOrder = true) (elaborates : iterable.Elaborates H Γ i)
    (below : i.ty.isSubtype H .iterable = true)
    (elements : ty = if i.ty.isDynamic then .dynamic else .integer)
    (bodyEnds : BlockTyped call (Γ.inside [(name, ty)]) body b)
    (mirrors : T.Mirrors Named w.heap) (agrees : Agrees T w.heap s Γ) :
    Ends Divides (executeKind call s (.forEach name iterable body)) w
      (Advances T s (Γ.after (.forEach name ty i b))) := by
  rw [executeKind]
  refine .bind (evaluate_typed fragment elaborates mirrors agrees) ?_
  rintro v w₁ ⟨heap, typed⟩
  rw [← heap] at mirrors agrees
  -- An iterable of ground type is a range, and its elements are integers.
  have isIterable : i.ty = .iterable :=
    Ty.eq_of_isSubtype_ground typed.ground (by decide) below
  have integer : ty = .integer := by
    rw [elements, isIterable]
    rfl
  subst integer
  rw [isIterable] at typed
  obtain ⟨vs, rfl⟩ := typed.exists_iterable
  refine (overElements_typed (Δ := (Γ.inside [(name, .integer)]).afterAll b) usable
    (fun inner T w mirrors agrees => bodyEnds mirrors agrees)
    typed.2 mirrors agrees).mono ?_
  exact fun _ _ advanced => .of_keeps rfl advanced

theorem exprStmt_typed {e : Expr} {t : Typed.Expr} (fragment : e.isFirstOrder = true)
    (elaborates : e.Elaborates H Γ t) (mirrors : T.Mirrors Named w.heap)
    (agrees : Agrees T w.heap s Γ) :
    Ends Divides (executeKind call s (.expr e)) w (Advances T s (Γ.after (.expr t))) := by
  rw [executeKind]
  refine .bind (evaluate_typed fragment elaborates mirrors agrees) ?_
  rintro v w₁ ⟨heap, _⟩
  rw [← heap] at mirrors agrees
  exact .pure (.of_keeps rfl ⟨⟨v, rfl⟩, T, .refl ∅ T, mirrors, agrees⟩)

/-- On ground types the value of an assignment is of the type of the variable itself. -/
theorem assignVariable_typed {target : NodeRef} {name : String} {value : Expr} {ty : Ty}
    {t : Typed.Expr} (usable : isUsable name = true) (fragment : value.isFirstOrder = true)
    (found : Γ.find? name = some ty) (elaborates : value.Elaborates H Γ t)
    (below : t.ty.isSubtype H ty = true) (mirrors : T.Mirrors Named w.heap)
    (agrees : Agrees T w.heap s Γ) :
    Ends Divides (executeKind call s (.assign ⟨target, .variable name⟩ value)) w
      (Advances T s (Γ.after (.assignVariable name ty t))) := by
  have same : t.ty = ty := Ty.eq_of_isSubtype_ground
    (elaborates.ground (agrees.ground mirrors) fragment)
    (agrees.ground mirrors name ty usable found) below
  rw [executeKind]
  refine .bind (evaluate_typed fragment elaborates mirrors agrees) ?_
  rintro v w₁ ⟨heap, typed⟩
  rw [← heap] at mirrors agrees
  refine .bind (assign_typed mirrors agrees usable found (same ▸ typed)) ?_
  intro _ w₂ mirrors₂
  exact .pure (.of_keeps rfl ⟨⟨v, rfl⟩, T, .refl ∅ T, mirrors₂,
    agrees.next mirrors (.refl ∅ T) mirrors₂⟩)

end Kinds

mutual

/-- A statement of the fragment ends with a value and binds what it declares at its type, or it
divides by zero. -/
theorem execute_typed : ∀ {x : Stmt} {t : Typed.Stmt} {Γ : Env} {T : Heap Ty} {s : ScopeId}
    {w : World}, x.isFirstOrder = true → x.Elaborates H Γ t → T.Mirrors Named w.heap →
    Agrees T w.heap s Γ → Ends Divides (execute call s x) w (Advances T s (Γ.after t.kind))
  | ⟨node, kind⟩, t, Γ, T, s, w, fragment, elaborates, mirrors, agrees => by
    rw [Stmt.isFirstOrder] at fragment
    rw [Stmt.Elaborates] at elaborates
    rw [execute]
    exact .located (executeKind_typed fragment elaborates.2 mirrors agrees)

theorem executeKind_typed {id : NodeId} : ∀ {x : StmtKind} {k : Typed.StmtKind} {Γ : Env}
    {T : Heap Ty} {s : ScopeId} {w : World}, x.isFirstOrder = true → x.Elaborates H Γ id k →
    T.Mirrors Named w.heap → Agrees T w.heap s Γ →
    Ends Divides (executeKind call s x) w (Advances T s (Γ.after k))
  | .letVar ⟨_, _, some _⟩, _, _, _, _, _, fragment, elaborates, mirrors, agrees =>
    letVar_typed fragment elaborates mirrors agrees
  | .ifElse condition thenBody elseBody, k, Γ, T, s, w, fragment, elaborates, mirrors, agrees => by
    rw [StmtKind.isFirstOrder, Bool.and_eq_true, Bool.and_eq_true] at fragment
    obtain ⟨⟨conditionFragment, thenFragment⟩, elseFragment⟩ := fragment
    rw [StmtKind.Elaborates] at elaborates
    obtain ⟨c, a, b, rfl, conditionOk, booleanLike, thenOk, elseOk⟩ := elaborates
    exact ifElse_typed conditionFragment conditionOk booleanLike (block_typed thenFragment thenOk)
      (block_typed elseFragment elseOk) mirrors agrees
  | .forEach name iterable body, k, Γ, T, s, w, fragment, elaborates, mirrors, agrees => by
    rw [StmtKind.isFirstOrder, Bool.and_eq_true, Bool.and_eq_true] at fragment
    obtain ⟨⟨usable, iterableFragment⟩, bodyFragment⟩ := fragment
    rw [StmtKind.Elaborates] at elaborates
    obtain ⟨ty, i, b, rfl, iterableOk, below, elements, bodyOk⟩ := elaborates
    exact forEach_typed usable iterableFragment iterableOk below elements
      (block_typed bodyFragment bodyOk) mirrors agrees
  | .expr e, k, Γ, T, s, w, fragment, elaborates, mirrors, agrees => by
    rw [StmtKind.isFirstOrder] at fragment
    rw [StmtKind.Elaborates] at elaborates
    obtain ⟨t, rfl, elaborates⟩ := elaborates
    exact exprStmt_typed fragment elaborates mirrors agrees
  | .assign ⟨target, .variable name⟩ value, k, Γ, T, s, w, fragment, elaborates, mirrors,
      agrees => by
    rw [StmtKind.isFirstOrder, Bool.and_eq_true] at fragment
    rw [StmtKind.Elaborates] at elaborates
    obtain ⟨ty, t, rfl, found, valueOk, below⟩ := elaborates
    exact assignVariable_typed fragment.1 fragment.2 found valueOk below mirrors agrees

theorem block_typed : ∀ {xs : List Stmt} {ts : List Typed.Stmt} {Γ : Env} {T : Heap Ty}
    {s : ScopeId} {w : World} {last : Value}, Stmt.allFirstOrder xs = true →
    Stmt.ElaborateAll H Γ xs ts → T.Mirrors Named w.heap → Agrees T w.heap s Γ →
    Ends Divides (block call s last xs) w (Advances T s (Γ.afterAll ts))
  | [], ts, Γ, T, s, w, last, _, elaborates, mirrors, agrees => by
    rw [Stmt.ElaborateAll] at elaborates
    rw [block, elaborates]
    exact .pure ⟨⟨last, rfl⟩, T, .refl _ T, mirrors, agrees⟩
  | x :: rest, ts, Γ, T, s, w, last, fragment, elaborates, mirrors, agrees => by
    rw [Stmt.allFirstOrder, Bool.and_eq_true] at fragment
    rw [Stmt.ElaborateAll] at elaborates
    obtain ⟨t, more, rfl, first, following⟩ := elaborates
    rw [block]
    refine .bind (execute_typed fragment.1 first mirrors agrees) ?_
    rintro _ w₁ ⟨⟨v, rfl⟩, T₁, keeps, mirrors₁, agrees₁⟩
    refine (block_typed fragment.2 following mirrors₁ agrees₁).mono ?_
    rintro flow w₂ ⟨value, T₂, keeps', ends⟩
    exact ⟨value, T₂, keeps.trans keeps', ends⟩

end

/-- No `RETURN` leaves the statements of a script. -/
theorem statements_typed : ∀ {xs : List Stmt} {ts : List Typed.Stmt} {Γ : Env} {T : Heap Ty}
    {w : World} {last : Value}, Stmt.allFirstOrder xs = true →
    Stmt.ElaborateAll H Γ xs ts → T.Mirrors Named w.heap → Agrees T w.heap s Γ →
    Ends Divides (statements call s last xs) w fun _ w' =>
      ∃ T', T.Keeps {s} T' ∧ T'.Mirrors Named w'.heap ∧ Agrees T' w'.heap s (Γ.afterAll ts)
  | [], ts, Γ, T, w, last, _, elaborates, mirrors, agrees => by
    rw [Stmt.ElaborateAll] at elaborates
    rw [elaborates]
    exact .pure ⟨T, .refl _ T, mirrors, agrees⟩
  | x :: rest, ts, Γ, T, w, last, fragment, elaborates, mirrors, agrees => by
    rw [Stmt.allFirstOrder, Bool.and_eq_true] at fragment
    rw [Stmt.ElaborateAll] at elaborates
    obtain ⟨t, more, rfl, first, following⟩ := elaborates
    rw [statements]
    refine .bind (execute_typed fragment.1 first mirrors agrees) ?_
    rintro _ w₁ ⟨⟨v, rfl⟩, T₁, keeps, mirrors₁, agrees₁⟩
    refine (statements_typed fragment.2 following mirrors₁ agrees₁).mono ?_
    rintro _ w₂ ⟨T₂, keeps', ends⟩
    exact ⟨T₂, keeps.trans keeps', ends⟩

/-! ## From the prelude on -/

/-- The types of what the prelude binds for a run. -/
def startTypes : Heap Ty := (Heap.empty.root (.ofList Prelude.builtinTypes)).2

theorem startTypes_mirrors : startTypes.Mirrors Named (RunSession.start false).heap := by
  have types : ∀ n t, (n, t) ∈ (startTypes.bindings 0).entries →
      (n, t) ∈ Prelude.builtinTypes := by
    have same : (startTypes.bindings 0).entries = Prelude.builtinTypes := by decide
    exact fun n t mem => same ▸ mem
  have values : ∀ n v, (n, v) ∈ ((RunSession.start false).heap.bindings 0).entries →
      (n, v) ∈ Prelude.builtinValues := fun n v mem => mem
  refine ⟨rfl, fun s => ?_, fun s => ?_, fun s n v t found bound => ?_⟩
  · rcases Nat.eq_zero_or_pos s with rfl | pos
    · rfl
    · rw [Heap.parent?_eq_none_of_ge pos, Heap.parent?_eq_none_of_ge pos]
  · rcases Nat.eq_zero_or_pos s with rfl | pos
    · decide
    · rw [Heap.bindings_eq_empty_of_ge pos, Heap.bindings_eq_empty_of_ge pos]
      rfl
  · obtain rfl : s = 0 := Nat.lt_one_iff.mp (Heap.lt_size_of_resolveLocal found)
    have isValue := values n v (Bindings.mem_of_find? found)
    have isType := types n t (Bindings.mem_of_find? bound)
    intro usable
    simp only [Prelude.builtinTypes, List.mem_cons, Prod.mk.injEq, List.not_mem_nil,
      or_false] at isType
    simp only [Prelude.builtinValues, Prelude.functions, List.map_cons, List.map_nil,
      Builtin.name, List.mem_cons, Prod.mk.injEq, List.not_mem_nil, or_false] at isValue
    rcases isType with ⟨rfl, rfl⟩ | ⟨rfl, rfl⟩ | ⟨rfl, rfl⟩ | ⟨rfl, rfl⟩
    · exact absurd usable (by decide)
    all_goals
      simp at isValue
      subst isValue
      rfl

theorem start_agrees :
    Agrees startTypes (RunSession.start false).heap (RunSession.start false).scope
    (Env.of (CheckSession.start false).heap { scope := (CheckSession.start false).scope }) where
  inside := by decide
  found n usable := by
    have checked : (Env.of (CheckSession.start false).heap
        { scope := (CheckSession.start false).scope }).bound =
        Prelude.primitiveTypes ++ Prelude.builtinTypes := by decide
    have kept : startTypes.visible (RunSession.start false).scope = Prelude.builtinTypes := by
      decide
    have unbound : n ∉ Prelude.primitiveTypes.map Prod.fst := by
      intro mem
      obtain ⟨_, isType, rfl⟩ := List.mem_map.mp mem
      obtain ⟨p, _, rfl⟩ := List.mem_map.mp isType
      exact ne_of_isUsable usable p rfl
    rw [← Heap.lookup_visible, kept, Env.find?, checked, List.lookup_append,
      lookup_eq_none_of_not_mem unbound, Option.none_or]
  own := by decide
  annotations := rfl
  types p := by cases p <;> decide

end Run

/-- An accepted script of the fragment comes to its end or divides by zero, whatever depth of calls
it is granted. When it comes to its end, its variables hold values of their types. -/
theorem Script.sound_of_check {p : Script} (fragment : p.isFirstOrder = true)
    {typed : List Typed.Stmt} (ok : (p.check false).1 = .ok typed) (depth : Nat) :
    Run.Ends Run.Divides (Run.script depth (RunSession.start false).scope p)
      ⟨(RunSession.start false).heap, #[]⟩ fun _ w =>
        ∀ n t, isUsable n = true →
          (p.check false).2.resolveLocal (CheckSession.start false).scope n = some t →
          ∃ v, w.heap.resolveLocal (RunSession.start false).scope n = some v ∧ v.HasType t := by
  have closed := CheckSession.start_closed false
  have elaborates := closed.elaborates ok
  rw [Run.script]
  refine (Run.statements_typed fragment elaborates Run.startTypes_mirrors Run.start_agrees).mono ?_
  rintro _ w ⟨T, keeps, mirrors, agrees⟩ n t usable bound
  rw [← closed.env ok] at agrees
  -- The top level has no surroundings: what a lookup finds there it binds itself.
  have top : w.heap.parent? (RunSession.start false).scope = none := by
    rw [← mirrors.parent, keeps.parent _ (by decide)]
    rfl
  have found : T.resolve (RunSession.start false).scope n = some t := by
    rw [agrees.found n usable, Env.find?_of, Heap.resolve_eq]
    exact Option.or_eq_some_iff.mpr (Or.inl bound)
  obtain ⟨v, resolved, named⟩ := mirrors.resolve agrees.inside found
  rw [Heap.resolve_eq, top, Option.or_none] at resolved
  exact ⟨v, resolved, named usable⟩

/-- Writes a fifth of the sum of the squares from 1 to 9. -/
def squaresScript : Script :=
  ⟨[⟨default, .letVar ⟨"sum", some "Integer", some ⟨default, .literal (.integer 0)⟩⟩⟩,
    ⟨default, .letVar ⟨"write", none, some ⟨default, .variable "print"⟩⟩⟩,
    ⟨default, .forEach "i" ⟨default, .call "range"
        [⟨default, .literal (.integer 1)⟩, ⟨default, .literal (.integer 10)⟩]⟩
      [⟨default, .letVar ⟨"square", none, some ⟨default, .binary .mul
          ⟨default, .variable "i"⟩ ⟨default, .variable "i"⟩⟩⟩⟩,
        ⟨default, .assign ⟨default, .variable "sum"⟩ ⟨default, .binary .add
          ⟨default, .variable "sum"⟩ ⟨default, .variable "square"⟩⟩⟩]⟩,
    ⟨default, .expr ⟨default, .call "write" [⟨default, .binary .div
      ⟨default, .variable "sum"⟩ ⟨default, .literal (.integer 5)⟩⟩]⟩⟩]⟩

theorem Script.sound_of_check_squares :
    ∃ typed, squaresScript.isFirstOrder = true ∧ (squaresScript.check false).1 = .ok typed ∧
      Run.Ends Run.Divides (Run.script 0 (RunSession.start false).scope squaresScript)
        ⟨(RunSession.start false).heap, #[]⟩ fun _ w =>
          ∀ n t, isUsable n = true →
            (squaresScript.check false).2.resolveLocal (CheckSession.start false).scope n = some t →
            ∃ v, w.heap.resolveLocal (RunSession.start false).scope n = some v ∧ v.HasType t := by
  have accepted : (squaresScript.check false).1.isOk = true := by decide
  have fragment : squaresScript.isFirstOrder = true := by decide
  obtain ⟨typed, ok⟩ := exists_eq_ok accepted
  exact ⟨typed, fragment, ok, Script.sound_of_check fragment ok 0⟩

end GradualScript
