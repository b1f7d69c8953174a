/-
# GradualScript.Proofs.Run.Plans -- what lookups have to find

A function looks its names up from the scope that it captures, again and again, until the run is
over. The proofs about calls note down what such lookups have to find: a `Plan` says, of a scope and
a name, what is known of the value that a lookup of the name from there comes to. What a scope binds
is in the plan, and a name is planned before it is bound if a function needs it. It is then planned
in the scopes around as well, as far as the lookup goes on. So a plan only grows, and whatever has
been declared or assigned in the meantime, a lookup finds what is planned (`Heap.Follows`).

What is known of a value is a parameter of this module (`Judgement`): its type in one development,
in another one what matters of the type to calls.
-/

import GradualScript.Proofs.Check.Uses
import GradualScript.Proofs.Run.Extends
import Mathlib.Logic.Function.Basic

namespace GradualScript

universe u

variable {α : Type} {β : Type u}

/-! ## Plans -/

/-- What lookups have to find, by the scope in which they start. -/
abbrev Plan (α : Type) := ScopeId → Meanings α

namespace Plan

/-- What is planned for one scope is replaced. -/
def lay (G : Plan α) (s : ScopeId) (σ : Meanings α) : Plan α := Function.update G s σ

section

variable (G : Plan α) (σ : Meanings α) {s t : ScopeId}

@[simp] theorem lay_self : G.lay s σ s = σ := Function.update_self ..

theorem lay_of_ne (ne : t ≠ s) : G.lay s σ t = G t := Function.update_of_ne ne ..

end

/-- A name is planned for one scope. -/
def declare (G : Plan α) (s : ScopeId) (n : String) (x : α) : Plan α :=
  G.lay s (Function.update (G s) n (some x))

section

variable (G : Plan α) (x : α) {r s : ScopeId} {k n : String}

@[simp] theorem declare_self : G.declare s n x s n = some x := by
  rw [declare, lay_self, Function.update_self]

theorem declare_of_ne (ne : k ≠ n) : G.declare s n x s k = G s k := by
  rw [declare, lay_self, Function.update_of_ne ne]

theorem declare_of_ne_scope (ne : r ≠ s) : G.declare s n x r = G r := lay_of_ne G _ ne

/-- It may have been planned before. -/
theorem declare_eq_self {G : Plan α} {x : α} (known : G s n = some x) : G.declare s n x = G := by
  rw [declare, ← known, Function.update_eq_self]
  exact Function.update_eq_self ..

end

/-- Of the first `size` scopes only those in `free` have more planned for them, and none has
less. -/
structure Grows (free : Set ScopeId) (size : Nat) (G G' : Plan α) : Prop where
  names : ∀ s, s < size → ∀ n x, G s n = some x → G' s n = some x
  same : ∀ s, s < size → s ∉ free → G' s = G s

namespace Grows

variable {G G' G'' : Plan α} {free free' : Set ScopeId} {size size' : Nat} {s : ScopeId}
  {σ : Meanings α}

theorem refl (free : Set ScopeId) (size : Nat) (G : Plan α) : Grows free size G G where
  names _ _ _ _ known := known
  same _ _ _ := rfl

theorem trans_fresh (first : Grows free size G G') (second : Grows free' size' G' G'')
    (le : size ≤ size') (old : ∀ s ∈ free', s < size → s ∈ free) : Grows free size G G'' where
  names s inside n x known := second.names s (by omega) n x (first.names s inside n x known)
  same s inside kept := by
    rw [second.same s (by omega) fun mem => kept (old s mem inside), first.same s inside kept]

/-- The plan for a new scope. -/
theorem lay_fresh : Grows free size G (G.lay size σ) where
  names s inside n x known := by
    rw [lay_of_ne G σ (Nat.ne_of_lt inside)]
    exact known
  same s inside _ := lay_of_ne G σ (Nat.ne_of_lt inside)

/-- More is planned for one scope. -/
theorem lay_more (more : ∀ n x, G s n = some x → σ n = some x) :
    Grows {s} size G (G.lay s σ) where
  names t _ n x known := by
    by_cases same : t = s
    · subst same
      rw [lay_self]
      exact more n x known
    · rw [lay_of_ne G σ same]
      exact known
  same t _ kept := lay_of_ne G σ fun same => kept (by simp [same])

theorem declare {n : String} {x : α} (planned : ∀ y, G s n = some y → y = x) :
    Grows {s} size G (G.declare s n x) := by
  apply lay_more
  intro k y known
  by_cases same : k = n
  · subst same
    rw [Function.update_self, planned y known]
  · rw [Function.update_of_ne same]
    exact known

end Grows

end Plan

/-! ## Where a search ends -/

namespace Heap

variable {h h' : Heap β} {s t p : ScopeId} {n : String}

/-- The scopes that nothing is around. -/
def roots (h : Heap β) : Set ScopeId := {s | h.parent? s = none}

/-- The scope in which the search for a name ends, also if it finds nothing. -/
def reach (h : Heap β) (s : ScopeId) (n : String) : ScopeId :=
  (h.owner? s n).getD (h.outermost s)

theorem reach_of_owner? (owner : h.owner? s n = some t) : h.reach s n = t := by
  rw [reach, owner, Option.getD_some]

theorem reach_of_binds (bound : n ∈ (h.bindings s).names) : h.reach s n = s :=
  reach_of_owner? (by rw [owner?_eq, if_pos (binds_iff.mpr bound)])

theorem reach_of_no_parent (none : h.parent? s = none) : h.reach s n = s := by
  rw [reach, owner?_eq, none, outermost_of_no_parent none]
  split <;> rfl

theorem reach_of_parent (unbound : n ∉ (h.bindings s).names) (link : h.parent? s = some p) :
    h.reach s n = h.reach p n := by
  rw [reach, owner?_eq, if_neg (mt binds_iff.mp unbound), link, outermost_of_parent link, reach]

/-- Outward along a chain, to the scope in which a search ends. -/
@[elab_as_elim]
theorem reach_induct (h : Heap β) (n : String) {motive : ScopeId → Prop}
    (here : ∀ s, h.reach s n = s → motive s)
    (outward : ∀ s p, h.parent? s = some p → n ∉ (h.bindings s).names →
      h.reach s n = h.reach p n → motive p → motive s) (s : ScopeId) : motive s := by
  induction s using Nat.strongRecOn with
  | ind s ih =>
    by_cases bound : n ∈ (h.bindings s).names
    · exact here s (reach_of_binds bound)
    · cases link : h.parent? s with
      | none => exact here s (reach_of_no_parent link)
      | some p => exact outward s p link bound (reach_of_parent bound link) (ih p (parent?_lt link))

theorem reach_le (h : Heap β) (s : ScopeId) (n : String) : h.reach s n ≤ s := by
  induction s using reach_induct h n with
  | here s same => exact Nat.le_of_eq same
  | outward s p link _ same le =>
    rw [same]
    exact Nat.le_trans le (Nat.le_of_lt (parent?_lt link))

/-- A lookup finds what is bound where its search ends. -/
theorem resolve_eq_reach (h : Heap β) (s : ScopeId) (n : String) :
    h.resolve s n = h.resolveLocal (h.reach s n) n := by
  induction s using reach_induct h n with
  | here s same =>
    rw [same, resolve_eq]
    cases own : h.resolveLocal s n with
    | some v => rfl
    | none =>
      cases link : h.parent? s with
      | none => rfl
      | some p =>
        have unbound := Bindings.find?_eq_none_iff.mp own
        have below := (reach_of_parent unbound link).symm.trans same
        exact absurd (below ▸ h.reach_le p n) (Nat.not_le.mpr (parent?_lt link))
  | outward s p link unbound same ih =>
    rw [same, resolve_eq, resolveLocal, Bindings.find?_eq_none_iff.mpr unbound, link,
      Option.none_or]
    exact ih

/-- New names of roots do not lead a search elsewhere: it would have ended there in any case. -/
theorem reach_of_extends (grows : h.Extends h.roots h') (inside : s < h.size) :
    h'.reach s n = h.reach s n := by
  induction s using Nat.strongRecOn with
  | ind s ih =>
    have parents := grows.parent s inside
    cases link : h.parent? s with
    | none => rw [reach_of_no_parent link, reach_of_no_parent (parents.trans link)]
    | some p =>
      have names := grows.same s inside (by simp [roots, link])
      by_cases bound : n ∈ (h.bindings s).names
      · rw [reach_of_binds bound, reach_of_binds (names ▸ bound)]
      · rw [reach_of_parent bound link, reach_of_parent (names ▸ bound) (parents.trans link)]
        exact ih p (parent?_lt link) (Nat.lt_trans (parent?_lt link) inside)

theorem reach_child_self (inside : s < h.size) (b : Bindings β) (n : String) :
    (h.child s b).2.reach h.size n = if b.contains n then h.size else h.reach s n := by
  have old : (h.child s b).2.reach s n = h.reach s n :=
    reach_of_extends (.child _ h s b) inside
  split
  case isTrue bound =>
    apply reach_of_binds
    rw [bindings_child_self]
    exact Bindings.contains_iff.mp bound
  case isFalse free =>
    rw [reach_of_parent _ (parent?_child_self inside b), old]
    rw [bindings_child_self]
    exact mt Bindings.contains_iff.mpr free

theorem reach_put_of_ne {name : String} (ne : n ≠ name) (s t : ScopeId) (v : β) :
    (h.put s name v).reach t n = h.reach t n := by
  rw [reach, reach, owner?_put_of_ne ne, outermost, outermost, chain_put]

end Heap

/-! ## Heaps -/

/-- What is known of values. It stays true when more is planned and when scopes are added. -/
structure Judgement (β : Type u) (α : Type) where
  fits : Plan α → Nat → β → α → Prop
  mono : ∀ {free : Set ScopeId} {size size' : Nat} {G G' : Plan α} {v : β} {x : α},
    fits G size v x → G.Grows free size G' → size ≤ size' → fits G' size' v x

/-- The heap is as planned. -/
structure Heap.Follows (h : Heap β) (J : Judgement β α) (G : Plan α) : Prop where
  values : ∀ s n v, h.resolveLocal s n = some v → ∃ x, G s n = some x ∧ J.fits G h.size v x
  around : ∀ s p n x, h.parent? s = some p → G s n = some x → n ∉ (h.bindings s).names →
    G p n = some x

namespace Heap.Follows

variable {J J' : Judgement β α} {G : Plan α} {h h' : Heap β} {s t p : ScopeId} {n : String}
  {v : β} {x : α} {σ : Meanings α}

/-- The scope that a search ends in has the name in its plan as the scope where it began. -/
theorem reach (follows : h.Follows J G) (known : G s n = some x) :
    G (h.reach s n) n = some x := by
  induction s using Heap.reach_induct h n with
  | here s same =>
    rw [same]
    exact known
  | outward s p link unbound same ih =>
    -- A scope that does not bind the name hands it on.
    rw [same]
    exact ih (follows.around s p n x link known unbound)

/-- What a lookup finds is as planned where its search ends. -/
theorem resolve (follows : h.Follows J G) (known : G (h.reach s n) n = some x)
    (found : h.resolve s n = some v) : J.fits G h.size v x := by
  rw [resolve_eq_reach] at found
  obtain ⟨y, planned, fits⟩ := follows.values _ n v found
  obtain rfl := Option.some.inj (planned.symm.trans known)
  exact fits

theorem imp (follows : h.Follows J G)
    (weaker : ∀ v x, J.fits G h.size v x → J'.fits G h.size v x) : h.Follows J' G where
  values s n v found := by
    obtain ⟨x, planned, fits⟩ := follows.values s n v found
    exact ⟨x, planned, weaker v x fits⟩
  around := follows.around

/-- One scope more, for which a plan is laid down. What it does not bind is planned around it. -/
theorem push (follows : h.Follows J G) (size : h'.size = h.size + 1)
    (parent : ∀ t, t < h.size → h'.parent? t = h.parent? t)
    (same : ∀ t, t < h.size → h'.bindings t = h.bindings t)
    (bound : ∀ n v, h'.resolveLocal h.size n = some v → ∃ x, σ n = some x ∧ J.fits G h.size v x)
    (seen : ∀ p n x, h'.parent? h.size = some p → σ n = some x →
      n ∉ (h'.bindings h.size).names → G p n = some x) :
    h'.Follows J (G.lay h.size σ) where
  values t k u found := by
    have grows : G.Grows ∅ h.size (G.lay h.size σ) := .lay_fresh
    have le : h.size ≤ h'.size := by omega
    have below := lt_size_of_resolveLocal found
    rw [size] at below
    rcases Nat.lt_or_ge t h.size with old | new
    · rw [resolveLocal, same t old] at found
      obtain ⟨x, planned, fits⟩ := follows.values t k u found
      exact ⟨x, grows.names t old k x planned, J.mono fits grows le⟩
    · obtain rfl : t = h.size := Nat.le_antisymm (Nat.le_of_lt_succ below) new
      obtain ⟨x, planned, fits⟩ := bound k u found
      refine ⟨x, ?_, J.mono fits grows le⟩
      rw [Plan.lay_self]
      exact planned
  around t p k y link known unbound := by
    have below := lt_size_of_parent? link
    rw [size] at below
    rcases Nat.lt_or_eq_of_le (Nat.le_of_lt_succ below) with old | rfl
    · rw [parent t old] at link
      rw [same t old] at unbound
      have apart : p ≠ h.size := Nat.ne_of_lt (Nat.lt_trans (parent?_lt link) old)
      rw [Plan.lay_of_ne _ _ (Nat.ne_of_lt old)] at known
      rw [Plan.lay_of_ne _ _ apart]
      exact follows.around t p k y link known unbound
    · rw [Plan.lay_self] at known
      rw [Plan.lay_of_ne _ _ (Nat.ne_of_lt (parent?_lt link))]
      exact seen p k y link known unbound

theorem child (follows : h.Follows J G) (inside : s < h.size) {b : Bindings β}
    (bound : ∀ n v, b.find? n = some v → ∃ x, σ n = some x ∧ J.fits G h.size v x)
    (seen : ∀ n x, σ n = some x → n ∉ b.names → G s n = some x) :
    (h.child s b).2.Follows J (G.lay h.size σ) := by
  apply follows.push (size_child h s b) (fun t old => parent?_child_of_lt s b old)
    (fun t old => bindings_child_of_lt s b old)
  · intro n v found
    rw [resolveLocal, bindings_child_self] at found
    exact bound n v found
  · intro p n x link known unbound
    rw [parent?_child_self inside] at link
    obtain rfl := Option.some.inj link
    rw [bindings_child_self] at unbound
    exact seen n x known unbound

/-- A scope without names that nothing is around may be planned in any way. -/
theorem root (follows : h.Follows J G) (σ : Meanings α) :
    (h.root .empty).2.Follows J (G.lay h.size σ) := by
  apply follows.push (size_root h .empty) (fun t old => parent?_root_of_lt .empty old)
    (fun t old => bindings_root_of_lt .empty old)
  · intro n v found
    rw [resolveLocal, bindings_root_self, Bindings.find?_empty] at found
    cases found
  · intro p n x link
    rw [parent?_root_self] at link
    cases link

/-- More is planned for one scope. What it does not bind is planned around it. -/
theorem promise (follows : h.Follows J G) (more : ∀ n x, G s n = some x → σ n = some x)
    (seen : ∀ p n x, h.parent? s = some p → σ n = some x → n ∉ (h.bindings s).names →
      G p n = some x) : h.Follows J (G.lay s σ) where
  values t k u found := by
    have grows : G.Grows {s} h.size (G.lay s σ) := .lay_more more
    obtain ⟨x, planned, fits⟩ := follows.values t k u found
    exact ⟨x, grows.names t (lt_size_of_resolveLocal found) k x planned,
      J.mono fits grows (Nat.le_refl _)⟩
  around t p k x link known unbound := by
    by_cases here : t = s
    · subst here
      rw [Plan.lay_self] at known
      rw [Plan.lay_of_ne _ _ (Nat.ne_of_lt (parent?_lt link))]
      exact seen p k x link known unbound
    · rw [Plan.lay_of_ne _ _ here] at known
      have planned := follows.around t p k x link known unbound
      by_cases there : p = s
      · subst there
        rw [Plan.lay_self]
        exact more k x planned
      · rw [Plan.lay_of_ne _ _ there]
        exact planned

/-- A name is bound, to what is planned for it, if something is. -/
theorem declare (follows : h.Follows J G) (inside : s < h.size)
    (planned : ∀ y, G s n = some y → y = x) (fits : J.fits (G.declare s n x) h.size v x) :
    (h.put s n v).Follows J (G.declare s n x) where
  values r k u found := by
    have grows : G.Grows {s} h.size (G.declare s n x) := .declare planned
    rw [size_put]
    rw [resolveLocal_put inside] at found
    split at found
    case isTrue same =>
      obtain ⟨rfl, rfl⟩ := same
      obtain rfl := Option.some.inj found
      exact ⟨x, G.declare_self x, fits⟩
    case isFalse =>
      obtain ⟨y, old, fits⟩ := follows.values r k u found
      exact ⟨y, grows.names r (lt_size_of_resolveLocal found) k y old,
        J.mono fits grows (Nat.le_refl _)⟩
  around r p k y link known unbound := by
    have grows : G.Grows {s} h.size (G.declare s n x) := .declare planned
    rw [parent?_put] at link
    rw [mem_names_put inside] at unbound
    obtain ⟨other, unbound⟩ := not_or.mp unbound
    have below : r < h.size := lt_size_of_parent? link
    have old : G r k = some y := by
      by_cases here : r = s
      · subst here
        rw [G.declare_of_ne x fun same => other ⟨rfl, same⟩] at known
        exact known
      · rw [G.declare_of_ne_scope x here] at known
        exact known
    exact grows.names p (Nat.lt_trans (parent?_lt link) below) k y
      (follows.around r p k y link old unbound)

/-- A name gets another value of which the same is known. -/
theorem put (follows : h.Follows J G) (inside : s < h.size) (known : G s n = some x)
    (fits : J.fits G h.size v x) : (h.put s n v).Follows J G := by
  have same := Plan.declare_eq_self known
  have declared := follows.declare (n := n) (x := x) (v := v) inside
    (fun y planned => Option.some.inj (planned.symm.trans known)) (same.symm ▸ fits)
  rw [same] at declared
  exact declared

end Heap.Follows

/-! ## Parts of a run -/

namespace Plan

variable {J : Judgement β α} {G G' G'' : Plan α} {h h' h'' : Heap β} {free free' : Set ScopeId}
  {s p : ScopeId} {n : String} {v : β} {x : α} {σ σ' own : Meanings α}
  {taken taken' U U' C C' K held held' : List String}

/-- A part of a run that found the heap `h`, planned by `G`, and left `h'`, planned by `G'`. In
between only the scopes in `free` were given more names or more plans, and roots more names that had
been planned for them. -/
structure Moves (free : Set ScopeId) (G : Plan α) (h : Heap β) (G' : Plan α) (h' : Heap β) :
    Prop where
  grows : G.Grows free h.size G'
  keeps : h.Extends (free ∪ h.roots) h'

namespace Moves

theorem size_le (moves : Moves free G h G' h') : h.size ≤ h'.size := moves.keeps.size_le

theorem refl (free : Set ScopeId) (G : Plan α) (h : Heap β) : Moves free G h G h where
  grows := .refl free h.size G
  keeps := .refl _ h

/-- The second part may add to scopes that the first one has made. -/
theorem trans_fresh (first : Moves free G h G' h') (second : Moves free' G' h' G'' h'')
    (old : ∀ s ∈ free', s < h.size → s ∈ free) : Moves free G h G'' h'' where
  grows := first.grows.trans_fresh second.grows first.size_le old
  keeps := first.keeps.trans_fresh second.keeps fun s mem inside =>
    mem.imp (old s · inside) fun root => (first.keeps.parent s inside).symm.trans root

theorem trans (first : Moves free G h G' h') (second : Moves free G' h' G'' h'') :
    Moves free G h G'' h'' := first.trans_fresh second fun _ mem _ => mem

theorem widen (moves : Moves ∅ G h G' h') : Moves free G h G' h' where
  grows := ⟨moves.grows.names, fun s inside _ =>
    moves.grows.same s inside (Set.notMem_empty s)⟩
  keeps := moves.keeps.of_old fun s mem _ => mem.imp (absurd · (Set.notMem_empty s)) id

theorem reach (moves : Moves ∅ G h G' h') (inside : s < h.size) (n : String) :
    h'.reach s n = h.reach s n := by
  have keeps := moves.keeps
  rw [Set.empty_union] at keeps
  exact Heap.reach_of_extends keeps inside

theorem child (h : Heap β) (s : ScopeId) (b : Bindings β) :
    Moves free G h (G.lay h.size σ) (h.child s b).2 :=
  ⟨.lay_fresh, .child _ h s b⟩

theorem root (h : Heap β) : Moves free G h (G.lay h.size σ) (h.root .empty).2 :=
  ⟨.lay_fresh, .root _ h .empty⟩

theorem put (bound : n ∈ (h.bindings s).names) : Moves free G h G (h.put s n v) :=
  ⟨.refl _ _ _, .put_bound _ bound v⟩

/-- A root may be given a name at any time. -/
theorem put_root (root : h.parent? s = none) : Moves free G h G (h.put s n v) where
  grows := .refl _ _ _
  keeps := (Heap.Extends.put h s n v).of_old fun _ mem _ => Or.inr (mem ▸ root)

end Moves

/-! ### What is seen -/

/-- What is seen from `s` of the names in `U` is planned, where the search for it ends, as `σ`
says. -/
structure Sees (G : Plan α) (h : Heap β) (s : ScopeId) (σ : Meanings α) (U : List String) :
    Prop where
  inside : s < h.size
  agrees : ∀ n ∈ U, ∀ x, σ n = some x → G (h.reach s n) n = some x

/-- The names in `C` are planned for `s`, as `σ` says. -/
def Promises (G : Plan α) (s : ScopeId) (σ : Meanings α) (C : List String) : Prop :=
  ∀ n ∈ C, ∀ x, σ n = some x → G s n = some x

/-- What is planned for a scope, and the names in `K`, as `σ` says. -/
def promising (G : Plan α) (s : ScopeId) (σ : Meanings α) (K : List String) : Meanings α :=
  fun n => (G s n).or (if n ∈ K then σ n else none)

theorem promising_of_some (known : G s n = some x) : G.promising s σ K n = some x := by
  rw [promising, known, Option.some_or]

theorem promising_cases (known : G.promising s σ K n = some x) :
    G s n = some x ∨ n ∈ K ∧ σ n = some x := by
  rcases Option.or_eq_some_iff.mp known with old | ⟨_, new⟩
  · exact Or.inl old
  · split at new
    case isTrue mem => exact Or.inr ⟨mem, new⟩
    case isFalse => cases new

/-- A function that is defined with what it uses planned may use itself as well. -/
theorem Promises.declare (promises : G.Promises s σ (U.removeAll [n])) (itself : σ' n = some x)
    (others : ∀ k, k ≠ n → σ' k = σ k) : (G.declare s n x).Promises s σ' U := by
  intro k used y found
  by_cases same : k = n
  · subst same
    rw [declare_self, ← itself, found]
  · rw [others k same] at found
    rw [declare_of_ne _ _ same]
    exact promises k (List.mem_filter.mpr ⟨used, by simpa using same⟩) y found

theorem Promises.next (promises : G.Promises s σ C) (inside : s < h.size)
    (moves : Moves free G h G' h') : G'.Promises s σ C := fun n mem x found =>
  moves.grows.names s inside n x (promises n mem x found)

namespace Sees

theorem mono (here : G.Sees h s σ U) (sub : U' ⊆ U) : G.Sees h s σ U' :=
  ⟨here.inside, fun n mem => here.agrees n (sub mem)⟩

theorem next (here : G.Sees h s σ U) (moves : Moves ∅ G h G' h') : G'.Sees h' s σ U where
  inside := Nat.lt_of_lt_of_le here.inside moves.size_le
  agrees n used x found := by
    rw [moves.reach here.inside]
    have old := Nat.lt_of_le_of_lt (h.reach_le s n) here.inside
    exact moves.grows.names _ old n x (here.agrees n used x found)

/-- What is planned for a scope is seen from it. -/
theorem of_promises (follows : h.Follows J G) (inside : s < h.size)
    (promises : G.Promises s σ U) : G.Sees h s σ U where
  inside := inside
  agrees n used x found := follows.reach (promises n used x found)

/-- What a lookup finds is as it was checked to be. -/
theorem resolve (here : G.Sees h s σ U) (follows : h.Follows J G) (used : n ∈ U)
    (found : σ n = some x) (result : h.resolve s n = some v) : J.fits G h.size v x :=
  follows.resolve (here.agrees n used x found) result

/-- A new scope is put inside, with values that are as its names say. It hands on what is planned
around it. -/
theorem child (here : G.Sees h s σ U) (follows : h.Follows J G) {b : Bindings β}
    (names : ∀ n, n ∈ b.names ↔ (own n).isSome)
    (bound : ∀ n v, b.find? n = some v → ∃ x, own n = some x ∧ J.fits G h.size v x)
    (inner : ∀ n, σ' n = (own n).or (σ n)) (used : ∀ n ∈ U', n ∈ b.names ∨ n ∈ U)
    (captured : ∀ n ∈ C', n ∈ b.names ∨ n ∈ C) :
    ∃ G', Moves ∅ G h G' (h.child s b).2 ∧ (h.child s b).2.Follows J G' ∧
      G'.Sees (h.child s b).2 h.size σ' U' ∧
      (G.Promises s σ C → G'.Promises h.size σ' C') := by
  have unnamed : ∀ n, n ∉ b.names → own n = none := fun n free =>
    Option.not_isSome_iff_eq_none.mp (mt (names n).mpr free)
  refine ⟨G.lay h.size fun n => (own n).or (G s n), .child h s b, follows.child here.inside ?_ ?_,
    ⟨Heap.lt_size_child h s b, ?_⟩, ?_⟩
  · intro n v found
    obtain ⟨x, same, fits⟩ := bound n v found
    refine ⟨x, ?_, fits⟩
    rw [same, Option.some_or]
  · intro n x known free
    rw [unnamed n free, Option.none_or] at known
    exact known
  -- A name is found in the new scope if it is bound there, and else where it was found before.
  · intro n mem x found
    rw [inner] at found
    rw [Heap.reach_child_self here.inside]
    by_cases here' : n ∈ b.names
    · obtain ⟨y, known⟩ := Option.isSome_iff_exists.mp ((names n).mp here')
      rw [if_pos (Bindings.contains_iff.mpr here'), lay_self, known, Option.some_or]
      rw [known, Option.some_or] at found
      exact found
    · rw [if_neg (mt Bindings.contains_iff.mp here')]
      rw [unnamed n here', Option.none_or] at found
      have old := Nat.lt_of_le_of_lt (h.reach_le s n) here.inside
      rw [lay_of_ne _ _ (Nat.ne_of_lt old)]
      exact here.agrees n ((used n mem).resolve_left here') x found
  · intro promises n mem x found
    rw [inner] at found
    rw [lay_self]
    by_cases here' : n ∈ b.names
    · obtain ⟨y, known⟩ := Option.isSome_iff_exists.mp ((names n).mp here')
      rw [known, Option.some_or] at found ⊢
      exact found
    · rw [unnamed n here', Option.none_or] at found ⊢
      exact promises n ((captured n mem).resolve_left here') x found

end Sees

/-- Statements for which `σ` says what the names around them mean may run in `s`. They use the names
in `U`, and the functions that they define those in `C`. What is planned for `s` and not bound there
means what it means around; it is among the names in `taken`, which are not declared in `s`, or in
`held`, which functions defined before in `s` capture. -/
structure Stands (G : Plan α) (h : Heap β) (s : ScopeId) (σ : Meanings α)
    (taken U C held : List String) : Prop extends Sees G h s σ U where
  promised : ∀ n x, G s n = some x → n ∉ (h.bindings s).names →
    σ n = some x ∧ (n ∈ taken ∨ n ∈ held)
  around : ∀ n ∈ C, ∀ x p, σ n = some x → n ∉ (h.bindings s).names → h.parent? s = some p →
    G p n = some x

namespace Stands

theorem next (here : Stands G h s σ taken U C held) (moves : Moves ∅ G h G' h') :
    Stands G' h' s σ taken U C held where
  toSees := here.toSees.next moves
  promised n x known unbound := by
    rw [moves.grows.same s here.inside (Set.notMem_empty s)] at known
    exact here.promised n x known fun mem => unbound (moves.keeps.mem_names mem)
  around n captured x p found unbound link := by
    rw [moves.keeps.parent s here.inside] at link
    have old := Nat.lt_trans (Heap.parent?_lt link) here.inside
    exact moves.grows.names p old n x (here.around n captured x p found
      (fun mem => unbound (moves.keeps.mem_names mem)) link)

theorem mono (here : Stands G h s σ taken U C held) (names : taken ⊆ taken') (used : U' ⊆ U)
    (captured : C' ⊆ C) (more : held ⊆ held') : Stands G h s σ taken' U' C' held' where
  toSees := here.toSees.mono used
  promised n x known unbound := by
    obtain ⟨found, mem⟩ := here.promised n x known unbound
    exact ⟨found, mem.imp (fun mem => names mem) fun mem => more mem⟩
  around n mem := here.around n (captured mem)

/-- In a new scope that binds nothing yet. -/
theorem fresh (around : G.Sees h s σ U) (follows : h.Follows J G) (promises : G.Promises s σ C) :
    let G' := G.lay h.size fun _ => none
    Moves ∅ G h G' (h.child s .empty).2 ∧ (h.child s .empty).2.Follows J G' ∧
      Stands G' (h.child s .empty).2 h.size σ [] U C [] := by
  refine ⟨.child h s .empty, follows.child around.inside (fun n v found => ?_)
    (fun n x known => ?_), ⟨Heap.lt_size_child h s .empty, ?_⟩, ?_, ?_⟩
  · rw [Bindings.find?_empty] at found
    cases found
  · cases known
  · intro n used x found
    rw [Heap.reach_child_self around.inside, if_neg (by simp [Bindings.contains_iff])]
    have old := Nat.lt_of_le_of_lt (h.reach_le s n) around.inside
    rw [lay_of_ne _ _ (Nat.ne_of_lt old)]
    exact around.agrees n used x found
  · intro n x known
    rw [lay_self] at known
    cases known
  · intro n captured x p found _ link
    rw [Heap.parent?_child_self around.inside] at link
    obtain rfl := Option.some.inj link
    rw [lay_of_ne _ _ (Nat.ne_of_lt around.inside)]
    exact promises n captured x found

/-- In the scopes of a body: one that binds names, and a new one inside it. -/
theorem body (around : G.Sees h s σ U) (follows : h.Follows J G) (promises : G.Promises s σ C)
    {b : Bindings β} (names : ∀ n, n ∈ b.names ↔ (own n).isSome)
    (bound : ∀ n v, b.find? n = some v → ∃ x, own n = some x ∧ J.fits G h.size v x)
    (inner : ∀ n, σ' n = (own n).or (σ n)) (used : ∀ n ∈ U', n ∈ b.names ∨ n ∈ U)
    (captured : ∀ n ∈ C', n ∈ b.names ∨ n ∈ C) :
    ∃ G', Moves ∅ G h G' ((h.child s b).2.child h.size .empty).2 ∧
      ((h.child s b).2.child h.size .empty).2.Follows J G' ∧
      Stands G' ((h.child s b).2.child h.size .empty).2 (h.child s b).2.size σ' [] U' C' [] := by
  obtain ⟨G₁, first, follows₁, seen, promised⟩ :=
    around.child follows names bound inner used captured
  obtain ⟨second, follows₂, stands⟩ := fresh seen follows₁ (promised promises)
  exact ⟨_, first.trans second, follows₂, stands⟩

/-- A function is going to be defined that uses these names: they are planned. -/
theorem promise (here : Stands G h s σ taken U C held) (follows : h.Follows J G) (used : K ⊆ U)
    (captured : K ⊆ C) :
    let G' := G.lay s (G.promising s σ K)
    Moves {s} G h G' h ∧ h.Follows J G' ∧ Stands G' h s σ taken U C (K ++ held) ∧
      G'.Promises s σ K := by
  have more : ∀ n x, G s n = some x → G.promising s σ K n = some x := fun n x => promising_of_some
  have grows : G.Grows {s} h.size (G.lay s (G.promising s σ K)) := .lay_more more
  have kept : ∀ {p}, h.parent? s = some p → G.lay s (G.promising s σ K) p = G p := fun link =>
    lay_of_ne G _ (Nat.ne_of_lt (Heap.parent?_lt link))
  refine ⟨⟨grows, .refl _ h⟩, follows.promise more ?_, ⟨⟨here.inside, ?_⟩, ?_, ?_⟩, ?_⟩
  · intro p n x link known unbound
    rcases promising_cases known with old | ⟨mem, found⟩
    · exact follows.around s p n x link old unbound
    · exact here.around n (captured mem) x p found unbound link
  · intro n mem x found
    have old := Nat.lt_of_le_of_lt (h.reach_le s n) here.inside
    exact grows.names _ old n x (here.agrees n mem x found)
  · intro n x known unbound
    rw [lay_self] at known
    rcases promising_cases known with old | ⟨mem, found⟩
    · obtain ⟨found, mem⟩ := here.promised n x old unbound
      exact ⟨found, mem.imp_right (List.mem_append_right K)⟩
    · exact ⟨found, Or.inr (List.mem_append_left held mem)⟩
  · intro n mem x p found unbound link
    rw [kept link]
    exact here.around n mem x p found unbound link
  · intro n mem x found
    -- A name that is planned already is bound to what it means, or was promised so.
    rw [lay_self]
    cases old : G s n with
    | some y =>
      rw [more n y old]
      by_cases bound : n ∈ (h.bindings s).names
      · have agrees := here.agrees n (used mem) x found
        rw [Heap.reach_of_binds bound] at agrees
        exact old.symm.trans agrees
      · exact (here.promised n y old bound).1.symm.trans found
    | none => rw [promising, old, Option.none_or, if_pos mem, found]

/-- A declaration that is admitted agrees with what is planned. -/
theorem eq_of_admits [BEq α] [LawfulBEq α] (here : Stands G h s σ taken U C held)
    (unbound : n ∉ (h.bindings s).names) (free : n ∉ taken)
    (admits : σ.admits held n x = true) : ∀ y, G s n = some y → y = x := by
  intro y known
  obtain ⟨found, mem⟩ := here.promised n y known unbound
  exact Meanings.admits_iff.mp admits y found (mem.resolve_left free)

/-- After a declaration in the active scope. -/
theorem declare (here : Stands G h s σ taken U C held) (follows : h.Follows J G)
    (planned : ∀ y, G s n = some y → y = x) (itself : σ' n = some x)
    (others : ∀ k, k ≠ n → σ' k = σ k) (fits : J.fits (G.declare s n x) h.size v x) :
    Moves {s} G h (G.declare s n x) (h.put s n v) ∧
      (h.put s n v).Follows J (G.declare s n x) ∧
      Stands (G.declare s n x) (h.put s n v) s σ' taken (n :: U) (n :: C) held := by
  have grows : G.Grows {s} h.size (G.declare s n x) := .declare planned
  have bound (k : String) : k ∈ ((h.put s n v).bindings s).names ↔
      k = n ∨ k ∈ (h.bindings s).names := by
    rw [Heap.mem_names_put here.inside, eq_self_iff_true, true_and]
  refine ⟨⟨grows, (Heap.Extends.put h s n v).of_old fun _ mem _ => Or.inl mem⟩,
    follows.declare here.inside planned fits, ⟨?_, ?_⟩, ?_, ?_⟩
  · rw [Heap.size_put]
    exact here.inside
  -- The search for the new name now ends in the active scope; every other one ends where it did.
  · intro k used y found
    by_cases same : k = n
    · subst same
      rw [Heap.reach_of_binds ((bound k).mpr (Or.inl rfl)), declare_self, ← itself, found]
    · rw [others k same] at found
      rw [Heap.reach_put_of_ne same]
      have old := Nat.lt_of_le_of_lt (h.reach_le s k) here.inside
      exact grows.names _ old k y
        (here.agrees k ((List.mem_cons.mp used).resolve_left same) y found)
  · intro k y known free
    obtain ⟨apart, free⟩ := not_or.mp (mt (bound k).mpr free)
    rw [declare_of_ne _ _ apart] at known
    rw [others k apart]
    exact here.promised k y known free
  · intro k captured y p found free link
    obtain ⟨apart, free⟩ := not_or.mp (mt (bound k).mpr free)
    rw [others k apart] at found
    rw [Heap.parent?_put] at link
    rw [declare_of_ne_scope _ _ (Nat.ne_of_lt (Heap.parent?_lt link))]
    exact here.around k ((List.mem_cons.mp captured).resolve_left apart) y p found free link

end Stands

end Plan

end GradualScript
