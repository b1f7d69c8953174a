/-
# GradualScript.Proofs.Run.Planned -- scopes that keep the types of captured names

A function that was checked with a name of some type will look the name up from the scope that it
captures, again and again, until the run is over. The proofs about results note down such types: a
`Plan Ty` says, of a scope and a name, what type a lookup that starts there has to find. What a
scope binds is in the plan, and a name is planned before it is bound if a function needs it. It is
then planned in the scopes around as well, as far as the lookup goes on.

Values are typed as far as they can be. A call yields `Nil` where its function has no `RETURN`, so
from the first such call on, of a function declared to give something else, there may be `Nil` in
the place of any other data (`Strayed`). Nothing worse comes of it: an operator stops at it, or
makes what it was checked to make.
-/

import GradualScript.Proofs.Check.Steady
import GradualScript.Proofs.Run.Plans
import GradualScript.Proofs.Run.Operands
import GradualScript.Proofs.Run.Trace

namespace GradualScript

/-! ## Results -/

/-- The call has run off the end of its body, and its function is declared to give some other data
than `Nil`. -/
def Event.Strays (D : List (Definition × Typed.Definition)) : Event → Prop
  | .completed f (.value _) _ =>
    ∃ d p, (f.definition, d) ∈ D ∧ d.returns = .prim p ∧ p ≠ .nil
  | _ => False

def Strayed (D : List (Definition × Typed.Definition)) (events : List Event) : Prop :=
  ∃ e ∈ events, e.Strays D

/-- A call yields what its body has ended with: data of the declared kind, or `Nil` once a call has
strayed. -/
def Event.Honoured (D : List (Definition × Typed.Definition)) (before : List Event) :
    Event → Prop
  | .completed f flow result => ∃ d, (f.definition, d) ∈ D ∧ result = flow.yielded ∧
      ∀ p, d.returns = .prim p → (Ty.prim p).kind? = some result.kind ∨
        result = .nil ∧ Strayed D (before ++ [.completed f flow result])
  | _ => True

/-- All calls so far have yielded what was declared. -/
def Honoured (D : List (Definition × Typed.Definition)) (events : List Event) : Prop :=
  ∀ before e after, events = before ++ e :: after → e.Honoured D before

section

variable {D : List (Definition × Typed.Definition)} {events : List Event} {e : Event}

theorem Strayed.append (strayed : Strayed D events) (more : List Event) :
    Strayed D (events ++ more) := by
  obtain ⟨e, mem, strays⟩ := strayed
  exact ⟨e, List.mem_append_left _ mem, strays⟩

theorem Honoured.nil : Honoured D [] := by
  intro before e after same
  cases before <;> cases same

theorem Honoured.snoc (honoured : Honoured D events) (last : e.Honoured D events) :
    Honoured D (events ++ [e]) := by
  intro before e' after same
  rcases snoc_eq_append_cons same with ⟨rfl, rfl, _⟩ | ⟨init, _, old⟩
  · exact last
  · exact honoured before e' init old

end

/-! ## Values -/

section

variable (D : List (Definition × Typed.Definition)) (H : Heap Ty) (G : Plan Ty) (size : Nat)
  (events : List Event)

/-- The closure runs the definition that was checked as `d` in `Γ`, and the names that it uses are
planned with the types that they had there. -/
structure Closure.Planned (f : Closure) (Γ : Env) (d : Typed.Definition) : Prop where
  inside : f.captured < size
  function : f.isMethod = false
  elaborates : ∃ id, f.definition.Elaborates H Γ id none d
  listed : (f.definition, d) ∈ D
  nested : Stmt.allDefinitions f.definition.body d.body ⊆ D
  concrete : d.isConcrete = true
  steady : d.isSteady Γ = true
  kept : ∀ n ∈ d.uses, ∀ t, (Γ.declare d.name d.ty).find? n = some t → G f.captured n = some t

def Callable.Obeys : Callable → List Ty → Ty → Prop
  | .builtin f, params, result => params = f.params ∧ result = f.returns
  | .closure f, params, result => ∃ Γ d, f.Planned D H G size Γ d ∧
      params = d.params.map Typed.Param.ty ∧ result = d.returns

/-- The value is what its type says, as far as the type is concrete, or `Nil` where there may be. -/
def Value.Obeys (v : Value) : Ty → Prop
  | .prim p => (Ty.prim p).isConcrete = true → v.HasType (.prim p) ∨ v = .nil ∧ Strayed D events
  | .function params result =>
    v = .nil ∨ ∃ f, v = .function f ∧ f.Obeys D H G size params result
  | .object _ _ => True

end

variable {D : List (Definition × Typed.Definition)} {H : Heap Ty} {G G' G'' : Plan Ty}
  {h h' h'' : Heap Value} {size size' : Nat} {events events' events'' : List Event}
  {free free' : Set ScopeId} {s p o : ScopeId} {n : String} {v : Value} {t u : Ty}

theorem Closure.Planned.mono {f : Closure} {Γ : Env} {d : Typed.Definition}
    (planned : f.Planned D H G size Γ d) (grows : G.Grows free size G') (le : size ≤ size') :
    f.Planned D H G' size' Γ d where
  inside := Nat.lt_of_lt_of_le planned.inside le
  function := planned.function
  elaborates := planned.elaborates
  listed := planned.listed
  nested := planned.nested
  concrete := planned.concrete
  steady := planned.steady
  kept n used t found := grows.names _ planned.inside n t (planned.kept n used t found)

namespace Value.Obeys

theorem of_hasType (typed : v.HasType t) : v.Obeys D H G size events t := by
  cases t with
  | prim p => exact fun _ => Or.inl typed
  | function params result =>
    have kind := typed.kind
    cases v with
    | function f =>
      cases f with
      | closure f => exact typed.elim
      | builtin f =>
        refine Or.inr ⟨.builtin f, rfl, ?_⟩
        have same : f.ty? = some (.function params result) := typed
        cases f <;> cases same <;> exact ⟨rfl, rfl⟩
    | _ => cases kind
  | object name members => trivial

theorem mono (obeys : v.Obeys D H G size events t) (grows : G.Grows free size G')
    (le : size ≤ size') (strays : Strayed D events → Strayed D events') :
    v.Obeys D H G' size' events' t := by
  cases t with
  | prim p => exact fun concrete => (obeys concrete).imp_right (And.imp_right strays)
  | function params result =>
    rcases obeys with rfl | ⟨f, rfl, callable⟩
    · exact Or.inl rfl
    · refine Or.inr ⟨f, rfl, ?_⟩
      cases f with
      | builtin f => exact callable
      | closure f =>
        obtain ⟨Γ, d, planned, params_eq, result_eq⟩ := callable
        exact ⟨Γ, d, planned.mono grows le, params_eq, result_eq⟩
  | object name members => trivial

/-- What obeys a concrete type obeys the types above it. -/
theorem of_isSubtype (concrete : t.isConcrete = true) (below : t.isSubtype H u = true)
    (obeys : v.Obeys D H G size events t) : v.Obeys D H G size events u := by
  by_cases same : t = u
  · exact same ▸ obeys
  cases u with
  | prim p =>
    intro target
    exact absurd (Ty.eq_of_isSubtype_concrete concrete target below) same
  | function params result =>
    -- Nothing but `Dynamic` is below a function type, and `Dynamic` is not concrete.
    simp only [Ty.isSubtype, Bool.or_eq_true, beq_iff_eq] at below
    rcases below with (((equal | impossible) | impossible) | rfl) | impossible
    · exact absurd equal same
    · cases impossible
    · cases impossible
    · cases concrete
    · cases t <;> cases impossible
  | object name members => trivial

/-- Data of a concrete type. -/
theorem data (obeys : v.Obeys D H G size events t) (concrete : t.isConcrete = true)
    {q : Primitive} (data : t = .prim q) : v.HasType t ∨ v = .nil := by
  subst data
  exact (obeys concrete).imp_right And.left

theorem callable {f : Callable} {params : List Ty} {result : Ty}
    (obeys : (Value.function f).Obeys D H G size events (.function params result)) :
    f.Obeys D H G size params result := by
  rcases obeys with impossible | ⟨g, same, callable⟩
  · cases impossible
  · obtain rfl := Value.function.inj same
    exact callable

/-- A loop walks over integers. -/
theorem elements {vs : List Value} (obeys : (Value.iterable vs).Obeys D H G size events .iterable) :
    ∀ v ∈ vs, ∃ k, v = .integer k := by
  rcases obeys rfl with typed | ⟨impossible, _⟩
  · exact typed.2
  · cases impossible

end Value.Obeys

namespace BinaryOp

variable {op : BinaryOp} {l r : Value} {tl tr : Ty}

/-- Operators other than those of arithmetic make Booleans, whatever their operands are. -/
theorem type_eq_boolean (ok : op.type H tl tr = .ok t)
    (other : op ∉ [BinaryOp.add, .sub, .mul, .div]) : t = .boolean := by
  cases op with
  | add | sub | mul | div => exact absurd (by decide) other
  | and | or =>
    simp only [type, logicalType] at ok
    split_ifs at ok
    cases ok
    rfl
  | lt | le | gt | ge =>
    simp only [type, orderingType] at ok
    split_ifs at ok
    cases ok
    rfl
  | eq | ne =>
    simp only [type, equalityType] at ok
    split_ifs at ok
    cases ok
    rfl

theorem combine_boolean (ok : op.combine h l r = .ok v)
    (other : op ∉ [BinaryOp.add, .sub, .mul, .div]) : v.HasType .boolean := by
  cases op with
  | add | sub | mul | div => exact absurd (by decide) other
  | and | or =>
    simp only [combine] at ok
    split at ok <;> cases ok
    rfl
  | lt | le | gt | ge =>
    simp only [combine] at ok
    split at ok <;> cases ok
    rfl
  | eq | ne =>
    cases ok
    rfl

theorem decided?_boolean (decided : op.decided? l = some v) :
    op ∉ [BinaryOp.add, .sub, .mul, .div] ∧ v.HasType .boolean := by
  unfold decided? at decided
  split at decided
  · cases decided
    exact ⟨by decide, rfl⟩
  · cases decided
    exact ⟨by decide, rfl⟩
  · cases decided

theorem arithmetic_string (left : tl ∈ Ty.ground) (right : tr ∈ Ty.ground)
    (found : arithmeticResult? true tl tr = some t) (string : tl = .string ∨ tr = .string) :
    t = .string := by
  rcases arithmeticResult?_ground left right found with
    ⟨rfl, rfl, _⟩ | ⟨rfl, rfl, _⟩ | ⟨_, same, _⟩
  · rcases string with impossible | impossible <;> cases impossible
  · rcases string with impossible | impossible <;> cases impossible
  · exact same

/-- The sum with a `Nil`, if there is one, is a string. -/
theorem add_nil_hasType (left : tl ∈ Ty.ground) (right : tr ∈ Ty.ground)
    (found : arithmeticResult? true tl tr = some t) (first : l.HasType tl ∨ l = .nil)
    (second : r.HasType tr ∨ r = .nil) (none : l = .nil ∨ r = .nil) (ok : l.add h r = .ok v) :
    v.HasType t := by
  rcases none with rfl | rfl
  · cases r with
    | string b =>
      rcases second with typed | impossible
      · obtain rfl := arithmetic_string left right found (Or.inr typed)
        cases ok
        rfl
      · cases impossible
    | _ => cases ok
  · cases l with
    | string a =>
      rcases first with typed | impossible
      · obtain rfl := arithmetic_string left right found (Or.inl typed)
        cases ok
        rfl
      · cases impossible
    | _ => cases ok

/-- Other arithmetic is not done on `Nil`. -/
theorem arithmetic_nil (arithmetic : op ∈ [BinaryOp.sub, .mul, .div])
    (accepted : op.leftFault? l = none) (ok : l.arithmetic op r = .ok v) : l ≠ .nil ∧ r ≠ .nil := by
  constructor
  · rintro rfl
    simp only [List.mem_cons, List.not_mem_nil, or_false] at arithmetic
    rcases arithmetic with rfl | rfl | rfl <;> cases accepted
  · rintro rfl
    cases l <;> cases ok

/-- There is arithmetic on data only. -/
theorem exists_prim_of_arithmetic {concat : Bool} (left : tl.isConcrete = true)
    (right : tr.isConcrete = true) (found : arithmeticResult? concat tl tr = some t) :
    (∃ q, tl = .prim q) ∧ ∃ q, tr = .prim q := by
  cases tl with
  | prim q =>
    cases tr with
    | prim q' => exact ⟨⟨q, rfl⟩, ⟨q', rfl⟩⟩
    | function ps s =>
      rw [arithmeticResult?_function left right (Or.inr ⟨ps, s, rfl⟩)] at found
      cases found
    | object name members => cases right
  | function ps s =>
    rw [arithmeticResult?_function left right (Or.inl ⟨ps, s, rfl⟩)] at found
    cases found
  | object name members => cases left

/-- What an accepted operation makes of values of concrete types is of the type that it was checked
to have, even if one of the values is `Nil` where it should not be. -/
theorem combine_hasType (left : tl.isConcrete = true) (right : tr.isConcrete = true)
    (checked : op.type H tl tr = .ok t) (first : ∀ {q}, tl = .prim q → l.HasType tl ∨ l = .nil)
    (second : ∀ {q}, tr = .prim q → r.HasType tr ∨ r = .nil) (accepted : op.leftFault? l = none)
    (ok : op.combine h l r = .ok v) : v.HasType t := by
  by_cases other : op ∈ [BinaryOp.add, .sub, .mul, .div]
  case neg =>
    rw [type_eq_boolean checked other]
    exact combine_boolean ok other
  case pos =>
    have found : arithmeticResult? (op == .add) tl tr = some t := by
      simp only [List.mem_cons, List.not_mem_nil, or_false] at other
      rcases other with rfl | rfl | rfl | rfl <;>
      · simp only [type] at checked
        split at checked <;> cases checked
        assumption
    obtain ⟨⟨p, rfl⟩, ⟨q, rfl⟩⟩ := exists_prim_of_arithmetic left right found
    have first := first rfl
    have second := second rfl
    by_cases none : l = .nil ∨ r = .nil
    case pos =>
      rcases List.mem_cons.mp other with rfl | arithmetic
      · exact add_nil_hasType (Ty.mem_ground_of_concrete left) (Ty.mem_ground_of_concrete right)
          found first second none ok
      · have carried : l.arithmetic op r = .ok v := by
          simp only [List.mem_cons, List.not_mem_nil, or_false] at arithmetic
          rcases arithmetic with rfl | rfl | rfl <;> exact ok
        obtain ⟨leftSome, rightSome⟩ := arithmetic_nil arithmetic accepted carried
        exact absurd none (not_or.mpr ⟨leftSome, rightSome⟩)
    case neg =>
      obtain ⟨leftSome, rightSome⟩ := not_or.mp none
      have promised := combine_promised (h := h) (first.resolve_right leftSome)
        (second.resolve_right rightSome) checked
      rw [ok] at promised
      exact promised

end BinaryOp

/-! ## Heaps -/

/-- Values obey the types that are planned for them. -/
def typing (D : List (Definition × Typed.Definition)) (H : Heap Ty) (events : List Event) :
    Judgement Value Ty where
  fits G size v t := v.Obeys D H G size events t
  mono obeys grows le := obeys.mono grows le id

/-- The heap is as planned, and the calls so far have yielded what was declared. -/
structure Heap.Obeys (h : Heap Value) (D : List (Definition × Typed.Definition)) (H : Heap Ty)
    (G : Plan Ty) (events : List Event) : Prop extends h.Follows (typing D H events) G where
  results : Honoured D events

/-- Something happens that leaves the heap alone. -/
theorem Heap.Obeys.tell {e : Event} (obeys : h.Obeys D H G events)
    (honoured : e.Honoured D events) :
    h.Obeys D H G (events ++ [e]) where
  toFollows := obeys.toFollows.imp fun _ _ typed =>
    typed.mono (.refl ∅ h.size G) (Nat.le_refl _) fun strayed => strayed.append [e]
  results := obeys.results.snoc honoured

/-! ## Parts of a run -/

namespace Traced

/-- A part of a run that found the heap `h`, planned by `G`, and left `h'`, planned by `G'`. -/
structure Leads (D : List (Definition × Typed.Definition)) (H : Heap Ty) (free : Set ScopeId)
    (G : Plan Ty) (h : Heap Value) (events : List Event) (G' : Plan Ty) (h' : Heap Value)
    (events' : List Event) : Prop extends G.Moves free h G' h' where
  obeys : h'.Obeys D H G' events'
  strays : Strayed D events → Strayed D events'

namespace Leads

theorem refl (obeys : h.Obeys D H G events) : Leads D H free G h events G h events :=
  ⟨.refl free G h, obeys, id⟩

/-- A step that tells nothing. -/
theorem of_moves (obeys : h.Obeys D H G events) (moves : G.Moves free h G' h')
    (follows : h'.Follows (typing D H events) G') : Leads D H free G h events G' h' events :=
  ⟨moves, ⟨follows, obeys.results⟩, id⟩

/-- The second part may add to scopes that the first one has made. -/
theorem trans_fresh (first : Leads D H free G h events G' h' events')
    (second : Leads D H free' G' h' events' G'' h'' events'')
    (old : ∀ s ∈ free', s < h.size → s ∈ free) : Leads D H free G h events G'' h'' events'' :=
  ⟨first.toMoves.trans_fresh second.toMoves old, second.obeys, second.strays ∘ first.strays⟩

theorem trans (first : Leads D H free G h events G' h' events')
    (second : Leads D H free G' h' events' G'' h'' events'') :
    Leads D H free G h events G'' h'' events'' :=
  first.trans_fresh second fun _ mem _ => mem

theorem widen (leads : Leads D H ∅ G h events G' h' events') :
    Leads D H free G h events G' h' events' :=
  ⟨leads.toMoves.widen, leads.obeys, leads.strays⟩

theorem typed (leads : Leads D H free G h events G' h' events')
    (typed : v.Obeys D H G h.size events t) : v.Obeys D H G' h'.size events' t :=
  typed.mono leads.grows leads.size_le leads.strays

/-- At its end something is told. -/
theorem tell {e : Event} (leads : Leads D H free G h events G' h' events')
    (honoured : e.Honoured D events') : Leads D H free G h events G' h' (events' ++ [e]) :=
  ⟨leads.toMoves, leads.obeys.tell honoured, fun strayed => (leads.strays strayed).append [e]⟩

/-- An assignment. -/
theorem put (obeys : h.Obeys D H G events) (bound : n ∈ (h.bindings s).names)
    (known : G s n = some t) (typed : v.Obeys D H G h.size events t) :
    Leads D H ∅ G h events G (h.put s n v) events :=
  .of_moves obeys (.put bound)
    (obeys.toFollows.put (Heap.lt_size_of_binds (Heap.binds_iff.mpr bound)) known typed)

end Leads

/-! ### What is seen -/

variable {Γ Γ' : Env} {U U' C C' K held held' : List String} {own : List (String × Ty)}

/-- Statements that were checked in `Γ` may run in `s`. -/
structure Stands (G : Plan Ty) (h : Heap Value) (s : ScopeId) (Γ : Env) (U C held : List String) :
    Prop extends Plan.Stands G h s Γ.find? (Γ.own.map Prod.fst) U C held where
  returns : ∀ t, Γ.returns = some t → t.isConcrete = true

namespace Stands

theorem next (here : Stands G h s Γ U C held) (leads : Leads D H ∅ G h events G' h' events') :
    Stands G' h' s Γ U C held :=
  ⟨here.toStands.next leads.toMoves, here.returns⟩

theorem mono (here : Stands G h s Γ U C held) (used : U' ⊆ U) (captured : C' ⊆ C)
    (more : held ⊆ held') : Stands G h s Γ U' C' held' :=
  ⟨here.toStands.mono (List.Subset.refl _) used captured more, here.returns⟩

/-- In a new scope that binds nothing yet. -/
theorem fresh (around : G.Sees h s Γ.find? U) (obeys : h.Obeys D H G events)
    (promises : G.Promises s Γ.find? C)
    (returns : ∀ t, Γ.returns = some t → t.isConcrete = true) :
    let G' := G.lay h.size fun _ => none
    Leads D H ∅ G h events G' (h.child s .empty).2 events ∧
      Stands G' (h.child s .empty).2 h.size (Γ.inside []) U C [] := by
  obtain ⟨moves, follows, stands⟩ := Plan.Stands.fresh around obeys.toFollows promises
  exact ⟨.of_moves obeys moves follows, stands, returns⟩

/-- In the scopes of a body: one that binds names, and a new one inside it. -/
theorem body (Γ' : Env) (own : List (String × Ty)) (around : G.Sees h s Γ.find? U)
    (obeys : h.Obeys D H G events) (promises : G.Promises s Γ.find? C) {b : Bindings Value}
    (names : ∀ n, n ∈ b.names ↔ n ∈ own.map Prod.fst)
    (bound : ∀ n v, b.find? n = some v →
      ∃ t, own.lookup n = some t ∧ v.Obeys D H G h.size events t)
    (inner : ∀ n, Γ'.find? n = (Γ.inside own).find? n) (used : U' ⊆ own.map Prod.fst ++ U)
    (captured : C' ⊆ own.map Prod.fst ++ C)
    (returns : ∀ t, Γ'.returns = some t → t.isConcrete = true) :
    ∃ G', Leads D H ∅ G h events G' ((h.child s b).2.child h.size .empty).2 events ∧
      Stands G' ((h.child s b).2.child h.size .empty).2 (h.child s b).2.size Γ' U' C' [] := by
  have named : ∀ n, n ∈ b.names ↔ (own.lookup n).isSome := fun n =>
    (names n).trans lookup_isSome_iff_mem.symm
  obtain ⟨G', moves, follows, stands⟩ := Plan.Stands.body around obeys.toFollows promises named
    bound (fun n => (inner n).trans (Γ.find?_inside own n))
    (fun n mem => (List.mem_append.mp (used mem)).imp_left (names n).mpr)
    (fun n mem => (List.mem_append.mp (captured mem)).imp_left (names n).mpr)
  exact ⟨G', .of_moves obeys moves follows,
    stands.mono (List.nil_subset _) (List.Subset.refl _) (List.Subset.refl _)
      (List.Subset.refl _), returns⟩

/-- A function is going to be defined that uses these names: they are planned. -/
theorem promise (here : Stands G h s Γ U C held) (obeys : h.Obeys D H G events) (used : K ⊆ U)
    (captured : K ⊆ C) : ∃ G', Leads D H {s} G h events G' h events ∧
      Stands G' h s Γ U C (K ++ held) ∧ G'.Promises s Γ.find? K := by
  obtain ⟨moves, follows, stands, promises⟩ :=
    here.toStands.promise obeys.toFollows used captured
  exact ⟨_, .of_moves obeys moves follows, ⟨stands, here.returns⟩, promises⟩

theorem eq_of_admits (here : Stands G h s Γ U C held) (unbound : n ∉ (h.bindings s).names)
    (fresh : n ∉ Γ.own.map Prod.fst) (admits : Γ.admits held (n, t) = true) :
    ∀ u, G s n = some u → u = t :=
  here.toStands.eq_of_admits unbound fresh admits

/-- After a declaration in the active scope. -/
theorem declare (here : Stands G h s Γ U C held) (obeys : h.Obeys D H G events)
    (fresh : n ∉ Γ.own.map Prod.fst) (planned : ∀ u, G s n = some u → u = t)
    (typed : v.Obeys D H (G.declare s n t) h.size events t) :
    Leads D H {s} G h events (G.declare s n t) (h.put s n v) events ∧
      Stands (G.declare s n t) (h.put s n v) s (Γ.declare n t) (n :: U) (n :: C) held := by
  obtain ⟨moves, follows, stands⟩ := here.toStands.declare obeys.toFollows planned
    (Env.find?_declare_self fresh t) (fun k ne => Env.find?_declare_of_ne ne) typed
  refine ⟨.of_moves obeys moves follows, stands.mono ?_ (List.Subset.refl _) (List.Subset.refl _)
    (List.Subset.refl _), here.returns⟩
  rw [Env.declare, List.map_append]
  exact List.subset_append_left _ _

end Stands

end Traced

end GradualScript
