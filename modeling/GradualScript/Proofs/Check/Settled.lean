/-
# GradualScript.Proofs.Check.Settled -- judgements about types that growth does not undo

The checker judges as it goes: each subtyping is asked in the heap of the moment, in which member
scopes may still grow. What a maintainer wants to know is about the heap at the end. One rule can go
wrong in between: a `Dynamic` prototype stands for any object type without members, and is lost when
the object type gets one.

Hence the invariant. `pending` are the scopes that may still be added to when a step is over, and a
type is `Settled` if no scope in it is both pending and empty. Every type that a script can get hold
of is settled: the scope of an object under construction is named by `this` only, inside methods,
and then it binds a method already. Judgements between settled types last (`isSubtype_of_keeps`).
-/

import GradualScript.Proofs.Check.Elaboration
import GradualScript.Proofs.Check.Succeeds
import Mathlib.Data.List.Basic

namespace GradualScript

/-! ## What is in scope, read off a heap -/

namespace Heap

variable {α : Type} {h h' : Heap α} {free : Set ScopeId} {s p : ScopeId}

/-- Everything that a lookup in `s` sees, innermost first. -/
def visible (h : Heap α) (s : ScopeId) : List (String × α) :=
  (h.chain s).flatMap fun t => (h.bindings t).entries

/-- Everything that the scopes around `s` bind. -/
def around (h : Heap α) (s : ScopeId) : List (String × α) :=
  match h.parent? s with
  | none => []
  | some p => h.visible p

theorem visible_eq (h : Heap α) (s : ScopeId) :
    h.visible s = (h.bindings s).entries ++ h.around s := by
  rw [visible, chain_eq, around]
  cases h.parent? s <;> simp [visible]

/-- The list answers a lookup as the heap does. -/
theorem lookup_visible (h : Heap α) (s : ScopeId) (n : String) :
    (h.visible s).lookup n = h.resolve s n := by
  rw [visible, resolve]
  induction h.chain s with
  | nil => rfl
  | cons t ts ih =>
    rw [List.flatMap_cons, List.lookup_append, ih, List.findSome?_cons, resolveLocal,
      Bindings.find?]
    cases (h.bindings t).entries.lookup n <;> rfl

/-- What is visible in a scope does not change as long as nothing is added to it or around it. -/
theorem Keeps.visible (keeps : Keeps free h h') (inside : s < h.size)
    (apart : ∀ t ≤ s, t ∉ free) : h'.visible s = h.visible s := by
  rw [Heap.visible, Heap.visible, keeps.chain inside]
  refine List.flatMap_congr fun t mem => ?_
  have below := le_of_mem_chain mem
  rw [keeps.same t (Nat.lt_of_le_of_lt below inside) (apart t below)]

theorem Keeps.around (keeps : Keeps free h h') (inside : s < h.size)
    (apart : ∀ t < s, t ∉ free) : h'.around s = h.around s := by
  rw [Heap.around, Heap.around, keeps.parent s inside]
  cases hp : h.parent? s with
  | none => rfl
  | some p =>
    have below := parent?_lt hp
    exact keeps.visible (Nat.lt_trans below inside) fun t le =>
      apart t (Nat.lt_of_le_of_lt le below)

end Heap

/-- What is in scope at a node. -/
def Env.of (h : Heap Ty) (ctx : Context) : Env where
  own := (h.bindings ctx.scope).entries
  outer := h.around ctx.scope
  annotations := ctx.annotations.map h.visible
  returns := ctx.returns

namespace Env

variable {h h' : Heap Ty} {free : Set ScopeId} {ctx : Context}

theorem bound_of (h : Heap Ty) (ctx : Context) : (Env.of h ctx).bound = h.visible ctx.scope :=
  (h.visible_eq ctx.scope).symm

theorem find?_of (h : Heap Ty) (ctx : Context) (n : String) :
    (Env.of h ctx).find? n = h.resolve ctx.scope n := by
  rw [find?, bound_of, Heap.lookup_visible]

theorem annotated_of (h : Heap Ty) (ctx : Context) :
    (Env.of h ctx).annotated = h.visible (ctx.annotations.getD ctx.scope) := by
  rw [annotated, bound_of]
  cases same : ctx.annotations <;> simp [Env.of, same]

/-- Additions to scopes that are younger than the active one and the one of annotations do not
show. -/
theorem of_keeps (keeps : h.Keeps free h') (active : ctx.scope < h.size)
    (annotations : ∀ a, ctx.annotations = some a → a < h.size)
    (apart : ∀ t ∈ free, ctx.scope < t ∧ ∀ a, ctx.annotations = some a → a < t) :
    Env.of h' ctx = Env.of h ctx := by
  have own : h'.bindings ctx.scope = h.bindings ctx.scope :=
    keeps.same _ active fun mem => Nat.lt_irrefl _ (apart _ mem).1
  have outer : h'.around ctx.scope = h.around ctx.scope :=
    keeps.around active fun t below mem => Nat.lt_asymm below (apart t mem).1
  have resolved : ctx.annotations.map h'.visible = ctx.annotations.map h.visible := by
    cases same : ctx.annotations with
    | none => rfl
    | some a =>
      refine congrArg some (keeps.visible (annotations a same) fun t le mem => ?_)
      exact Nat.lt_irrefl _ (Nat.lt_of_lt_of_le ((apart t mem).2 a same) le)
  rw [Env.of, Env.of, own, outer, resolved]

/-- Defining a name in the active scope. -/
theorem of_put (active : ctx.scope < h.size)
    (annotations : ∀ a, ctx.annotations = some a → a < ctx.scope) {n : String}
    (fresh : h.binds ctx.scope n = false) (t : Ty) :
    Env.of (h.put ctx.scope n t) ctx = (Env.of h ctx).declare n t := by
  have keeps : h.Keeps {ctx.scope} (h.put ctx.scope n t) := .put fresh t
  have own : ((h.put ctx.scope n t).bindings ctx.scope).entries =
      (h.bindings ctx.scope).entries ++ [(n, t)] := by
    rw [Heap.bindings_put_self active,
      Bindings.entries_insert_of_not_mem t (Bindings.not_mem_names_of_not_contains fresh)]
  have outer : (h.put ctx.scope n t).around ctx.scope = h.around ctx.scope :=
    keeps.around active fun _ below same => Nat.ne_of_lt below same
  have resolved : ctx.annotations.map (h.put ctx.scope n t).visible =
      ctx.annotations.map h.visible := by
    cases same : ctx.annotations with
    | none => rfl
    | some a =>
      have below := annotations a same
      refine congrArg some (keeps.visible (Nat.lt_trans below active) fun t le mem => ?_)
      exact Nat.ne_of_lt (Nat.lt_of_le_of_lt le below) mem
  rw [Env.of, own, outer, resolved]
  rfl

/-- A new scope inside the active one. -/
theorem of_child (active : ctx.scope < h.size)
    (annotations : ∀ a, ctx.annotations = some a → a < h.size) (b : Bindings Ty)
    (returns : Option Ty) :
    Env.of (h.child ctx.scope b).2 { ctx with scope := h.size, returns := returns } =
      { (Env.of h ctx).inside b.entries with returns := returns } := by
  have keeps : h.Keeps ∅ (h.child ctx.scope b).2 := .child ∅ h ctx.scope b
  have outer : (h.child ctx.scope b).2.around h.size = h.visible ctx.scope := by
    rw [Heap.around, Heap.parent?_child_self active]
    exact keeps.visible active fun _ _ => Set.notMem_empty _
  have resolved : ctx.annotations.map (h.child ctx.scope b).2.visible =
      ctx.annotations.map h.visible := by
    cases same : ctx.annotations with
    | none => rfl
    | some a =>
      exact congrArg some (keeps.visible (annotations a same) fun _ _ => Set.notMem_empty _)
  simp only [Env.of, Heap.bindings_child_self, outer, resolved, inside, bound]
  rw [Heap.visible_eq]

end Env

/-! ## Settled types -/

mutual

/-- The member scopes that a type names. -/
def Ty.scopes : Ty → List ScopeId
  | .prim _ => []
  | .function params returns => Ty.scopesAll params ++ returns.scopes
  | .object _ members => [members]

def Ty.scopesAll : List Ty → List ScopeId
  | [] => []
  | t :: ts => t.scopes ++ Ty.scopesAll ts

end

theorem Ty.mem_scopesAll {m : ScopeId} {ts : List Ty} :
    m ∈ Ty.scopesAll ts ↔ ∃ t ∈ ts, m ∈ t.scopes := by
  induction ts with
  | nil => simp [scopesAll]
  | cons t ts ih => simp [scopesAll, ih]

/-- A property of all the member scopes that a function type names. -/
theorem Ty.forall_scopes_function_iff {P : ScopeId → Prop} {params : List Ty} {returns : Ty} :
    (∀ m ∈ (Ty.function params returns).scopes, P m) ↔
      (∀ p ∈ params, ∀ m ∈ p.scopes, P m) ∧ ∀ m ∈ returns.scopes, P m := by
  simp only [Ty.scopes, List.mem_append, Ty.mem_scopesAll]
  constructor
  · intro all
    exact ⟨fun p hp m hm => all m (Or.inl ⟨p, hp, hm⟩), fun m hm => all m (Or.inr hm)⟩
  · rintro ⟨ps, r⟩ m (⟨p, hp, hm⟩ | hm)
    · exact ps p hp m hm
    · exact r m hm

/-- No member scope of the type may still get its first member. -/
def Ty.Settled (pending : Set ScopeId) (h : Heap Ty) (t : Ty) : Prop :=
  ∀ m ∈ t.scopes, m < h.size ∧ (m ∈ pending → (h.bindings m).isEmpty = false)

/-- Every type that is bound in the heap is settled. -/
def Heap.Settled (pending : Set ScopeId) (h : Heap Ty) : Prop :=
  ∀ s n t, h.resolveLocal s n = some t → t.Settled pending h

variable {h h' H : Heap Ty} {free pending : Set ScopeId} {s m : ScopeId} {ctx : Context}

namespace Ty.Settled

variable {t : Ty}

theorem prim (p : Primitive) : (Ty.prim p).Settled pending h := by
  intro m mem
  simp [Ty.scopes] at mem

theorem function_iff {params : List Ty} {returns : Ty} :
    (Ty.function params returns).Settled pending h ↔
      (∀ p ∈ params, p.Settled pending h) ∧ returns.Settled pending h :=
  Ty.forall_scopes_function_iff

/-- A member scope that cannot get its first member keeps to that. -/
theorem keeps (settled : t.Settled pending h) (keeps : h.Keeps free h') : t.Settled pending h' := by
  intro m mem
  obtain ⟨inside, nonempty⟩ := settled m mem
  refine ⟨Nat.lt_of_lt_of_le inside keeps.size_le, fun isPending => ?_⟩
  by_contra empty
  rw [Bool.not_eq_false] at empty
  have := nonempty isPending
  rw [keeps.bindings_isEmpty inside empty] at this
  exact Bool.noConfusion this

theorem anti {pending' : Set ScopeId} (settled : t.Settled pending' h) (sub : pending ⊆ pending') :
    t.Settled pending h :=
  fun m mem => ⟨(settled m mem).1, fun isPending => (settled m mem).2 (sub isPending)⟩

/-- A scope that does not exist yet is in no type. -/
theorem insert_fresh (settled : t.Settled pending h) (fresh : h.size ≤ s) :
    t.Settled (insert s pending) h := by
  intro m mem
  obtain ⟨inside, nonempty⟩ := settled m mem
  refine ⟨inside, fun isPending => nonempty (isPending.resolve_left ?_)⟩
  rintro rfl
  exact Nat.lt_irrefl _ (Nat.lt_of_lt_of_le inside fresh)

end Ty.Settled

namespace Heap.Settled

theorem anti {pending' : Set ScopeId} (settled : h.Settled pending') (sub : pending ⊆ pending') :
    h.Settled pending := fun s n t found => (settled s n t found).anti sub

theorem insert_fresh (settled : h.Settled pending) (fresh : h.size ≤ s) :
    h.Settled (insert s pending) := fun s n t found => (settled s n t found).insert_fresh fresh

theorem resolve (settled : h.Settled pending) {n : String} {t : Ty}
    (found : h.resolve s n = some t) :
    t.Settled pending h := by
  obtain ⟨owner, _, found⟩ := Heap.exists_resolveLocal_of_resolve found
  exact settled owner n t found

/-- A new name unsettles no type, if its own one is settled. -/
theorem put (settled : h.Settled pending) {n : String} {t : Ty} (inside : s < h.size)
    (fresh : h.binds s n = false) (new : t.Settled pending (h.put s n t)) :
    (h.put s n t).Settled pending := by
  intro s' n' t' found
  rw [Heap.resolveLocal_put inside] at found
  split at found
  · obtain rfl := Option.some.inj found
    exact new
  · exact (settled s' n' t' found).keeps (Heap.Keeps.put fresh t)

theorem push {h' : Heap Ty} {b : Bindings Ty} (settled : h.Settled pending)
    (keeps : h.Keeps ∅ h') (size : h'.size = h.size + 1) (bindings : h'.bindings h.size = b)
    (new : ∀ n t, b.find? n = some t → t.Settled pending h') : h'.Settled pending := by
  intro s n t found
  have below := Heap.lt_size_of_resolveLocal found
  rcases Nat.lt_or_ge s h.size with old | same
  · rw [Heap.resolveLocal, keeps.same s old (Set.notMem_empty s)] at found
    exact (settled s n t found).keeps keeps
  · rw [size, Nat.lt_succ_iff] at below
    have same : s = h.size := Nat.le_antisymm below same
    rw [same, Heap.resolveLocal, bindings] at found
    exact new n t found

theorem child (settled : h.Settled pending) (s : ScopeId) {b : Bindings Ty}
    (new : ∀ n t, b.find? n = some t → t.Settled pending h) :
    (h.child s b).2.Settled pending :=
  settled.push (.child ∅ h s b) (Heap.size_child h s b) (Heap.bindings_child_self h s b)
    fun n t found => (new n t found).keeps (Heap.Keeps.child ∅ h s b)

theorem root (settled : h.Settled pending) : (h.root .empty).2.Settled pending :=
  settled.push (.root ∅ h .empty) (Heap.size_root h .empty) (Heap.bindings_root_self h .empty)
    fun n t found => by simp at found

theorem lookupWithin (settled : h.Settled pending) {name : String} {t : Ty} {n : Nat}
    {members : ScopeId} (found : Ty.lookupWithin h name n members = some t) :
    t.Settled pending h := by
  obtain ⟨s, _, own | ⟨rfl, _⟩⟩ :=
    Ty.exists_of_lookupWithin (P := fun _ => True) (fun _ _ _ _ => id) trivial found
  · exact settled _ _ _ own
  · exact .prim _

/-- The type of a member is bound somewhere, and so it is settled. -/
theorem memberType (settled : h.Settled pending) {receiver t : Ty} {name : String}
    {use : MemberUse} (ok : Check.memberType h receiver name use = .ok t) :
    t.Settled pending h := by
  unfold Check.memberType at ok
  split at ok
  · split at ok
    · cases ok
      exact settled.lookupWithin ‹_›
    · cases ok
  · cases ok
    exact .prim _
  · cases ok

end Heap.Settled

/-! ## Judgements that last -/

/-- A prototype that was found is found after every addition. -/
theorem Ty.prototype?_of_keeps (keeps : h.Keeps free H) {t : Ty}
    (found : Ty.prototype? h m = some t) : Ty.prototype? H m = some t := keeps.resolveLocal found

/-- An object type keeps what it inherits from, as the chain to it does not change. -/
theorem Ty.inheritsWithin_of_keeps (keeps : h.Keeps pending H) {upper : Option String × ScopeId}
    (settled : (Ty.object upper.1 upper.2).Settled pending h) :
    ∀ {n n' : Nat} {members : ScopeId}, n ≤ n' →
      Ty.inheritsWithin h upper n members = true → Ty.inheritsWithin H upper n' members = true
  | 0, _, _, _, inherits => by simp [inheritsWithin] at inherits
  | n + 1, n' + 1, members, le, inherits => by
    rw [inheritsWithin] at inherits ⊢
    cases link : prototype? h members with
    | none => simp [link] at inherits
    | some p =>
      rw [prototype?_of_keeps keeps link]
      rw [link] at inherits
      cases p with
      | object name proto =>
        simp only [Bool.or_eq_true] at inherits ⊢
        exact inherits.imp id
          (inheritsWithin_of_keeps keeps settled (Nat.le_of_succ_le_succ le))
      | prim p =>
        cases p with
        | dynamic =>
          obtain ⟨inside, nonempty⟩ := settled upper.2 (by simp [Ty.scopes])
          have kept : upper.2 ∉ pending := by
            intro isPending
            have := nonempty isPending
            simp only at inherits
            rw [inherits] at this
            exact Bool.noConfusion this
          simpa only [keeps.same _ inside kept] using inherits
        | _ => simp at inherits
      | function params returns => simp at inherits

/-- A type that is below a settled type stays below it. -/
theorem Ty.isSubtype_of_keeps (keeps : h.Keeps pending H) {sub sup : Ty}
    (settled : sup.Settled pending h) (subtype : sub.isSubtype h sup = true) :
    sub.isSubtype H sup = true := by
  simp only [isSubtype, Bool.or_eq_true] at subtype ⊢
  refine subtype.imp id fun below => ?_
  cases sub <;> cases sup <;> simp only [Bool.false_eq_true] at below ⊢
  · exact below
  · exact inheritsWithin_of_keeps keeps settled keeps.size_le below

theorem Ty.isSubtype_prim (h H : Heap Ty) (t : Ty) (p : Primitive) :
    t.isSubtype h (.prim p) = t.isSubtype H (.prim p) := by
  cases t <;> rfl

/-- The type of an operation on settled types stays what it is. -/
theorem BinaryOp.type_of_keeps (keeps : h.Keeps pending H) {op : BinaryOp} {left right t : Ty}
    (leftSettled : left.Settled pending h) (rightSettled : right.Settled pending h)
    (ok : op.type h left right = .ok t) : op.type H left right = .ok t := by
  have comparable (t : Ty) : isComparableLike h t = isComparableLike H t := by
    simp only [isComparableLike]
    rw [Ty.isSubtype_prim h H]
  have ordering (op : BinaryOp) : orderingType h op left right = orderingType H op left right := by
    simp only [orderingType, comparable]
  have equality (op : BinaryOp) (ok : equalityType h op left right = .ok t) :
      equalityType H op left right = .ok t := by
    unfold equalityType at ok ⊢
    split at ok
    case isTrue related =>
      rw [if_pos, ok]
      simp only [Bool.or_eq_true] at related ⊢
      rcases related with (dynamic | down) | up
      · exact Or.inl (Or.inl dynamic)
      · exact Or.inl (Or.inr (Ty.isSubtype_of_keeps keeps rightSettled down))
      · exact Or.inr (Ty.isSubtype_of_keeps keeps leftSettled up)
    case isFalse => cases ok
  cases op with
  | add | sub | mul | div | and | or => exact ok
  | lt | le | gt | ge => exact (ordering _).symm.trans ok
  | eq | ne => exact equality _ ok

theorem BinaryOp.arithmeticResult?_prim {concat : Bool} {left right t : Ty}
    (found : arithmeticResult? concat left right = some t) : ∃ p, t = .prim p := by
  have mixed (other : Ty) : ∃ p, dynamicResult other = .prim p := by
    unfold dynamicResult
    split <;> exact ⟨_, rfl⟩
  unfold arithmeticResult? at found
  split at found
  all_goals first
    | (cases found; done)
    | (cases found; exact ⟨_, rfl⟩)
    | (cases found; exact mixed _)
    | split at found <;> cases found <;> exact ⟨_, rfl⟩

/-- Operations have results of primitive types. -/
theorem BinaryOp.type_prim {op : BinaryOp} {left right t : Ty}
    (ok : op.type h left right = .ok t) : ∃ p, t = .prim p := by
  cases op with
  | add | sub | mul | div =>
    simp only [BinaryOp.type] at ok
    split at ok
    · cases ok
      exact arithmeticResult?_prim ‹_›
    · cases ok
  | and | or =>
    simp only [BinaryOp.type, logicalType] at ok
    split_ifs at ok
    cases ok
    exact ⟨_, rfl⟩
  | lt | le | gt | ge =>
    simp only [BinaryOp.type, orderingType] at ok
    split_ifs at ok
    cases ok
    exact ⟨_, rfl⟩
  | eq | ne =>
    simp only [BinaryOp.type, equalityType] at ok
    split_ifs at ok
    cases ok
    exact ⟨_, rfl⟩

end GradualScript
