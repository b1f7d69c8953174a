/-
# GradualScript.Proofs.Run.Mirror -- a heap of values and the types of its bindings

The proofs about values keep, beside the heap of a run, a heap of types of the same shape: the same
scopes with the same parents and the same names. `T.Mirrors R h` says so, and that what is bound in
`h` is related by `R` to what is bound to the same name in `T`. Every step that grows the one heap
has a step that grows the other, and a lookup finds related things in both.
-/

import GradualScript.Proofs.Check.Frame
import GradualScript.Proofs.Run.Extends
import GradualScript.Run.Value

namespace GradualScript

/-- The heap of types `T` has the shape of `h`, and what they bind is related. -/
structure Heap.Mirrors (T : Heap Ty) (R : String → Value → Ty → Prop) (h : Heap Value) : Prop where
  size : T.size = h.size
  parent : ∀ s, T.parent? s = h.parent? s
  names : ∀ s, (T.bindings s).names = (h.bindings s).names
  related : ∀ s n v t, h.resolveLocal s n = some v → T.resolveLocal s n = some t → R n v t

namespace Heap.Mirrors

variable {T : Heap Ty} {h : Heap Value} {R : String → Value → Ty → Prop} {s : ScopeId}
  {n : String} {v : Value} {t : Ty}

/-! ## Lookups -/

theorem chain (mirrors : T.Mirrors R h) (inside : s < h.size) : T.chain s = h.chain s :=
  chain_of_parents (fun t _ => mirrors.parent t) inside

theorem binds (mirrors : T.Mirrors R h) (s : ScopeId) (n : String) :
    T.binds s n = h.binds s n := by
  rw [Bool.eq_iff_iff, binds_iff, binds_iff, mirrors.names]

theorem owner? (mirrors : T.Mirrors R h) (inside : s < h.size) : T.owner? s n = h.owner? s n := by
  have same : (fun t => T.binds t n) = fun t => h.binds t n := funext fun t => mirrors.binds t n
  rw [Heap.owner?, Heap.owner?, mirrors.chain inside, same]

/-- What one heap binds the other binds, to something related. -/
theorem exists_value (mirrors : T.Mirrors R h) (bound : T.resolveLocal s n = some t) :
    ∃ v, h.resolveLocal s n = some v ∧ R n v t := by
  have binds : h.binds s n = true := by
    rw [← mirrors.binds, binds_iff_isSome, bound]
    rfl
  obtain ⟨v, found⟩ := Option.isSome_iff_exists.mp (binds_iff_isSome.mp binds)
  exact ⟨v, found, mirrors.related s n v t found bound⟩

/-- A lookup finds related things. -/
theorem resolve (mirrors : T.Mirrors R h) (inside : s < h.size) (found : T.resolve s n = some t) :
    ∃ v, h.resolve s n = some v ∧ R n v t := by
  rw [resolve_eq_owner?, mirrors.owner? inside] at found
  obtain ⟨o, owner, bound⟩ := Option.bind_eq_some_iff.mp found
  obtain ⟨v, found, related⟩ := mirrors.exists_value bound
  exact ⟨v, by rw [resolve_eq_owner?, owner, Option.bind_some, found], related⟩

/-! ## Steps in both heaps -/

theorem child (mirrors : T.Mirrors R h) (inside : s < h.size) {b : Bindings Value}
    {c : Bindings Ty} (names : c.names = b.names)
    (related : ∀ n v t, b.find? n = some v → c.find? n = some t → R n v t) :
    (T.child s c).2.Mirrors R (h.child s b).2 where
  size := by rw [size_child, size_child, mirrors.size]
  -- An old scope, the new one, or one that neither heap has.
  parent u := by
    rcases Nat.lt_trichotomy u h.size with old | rfl | young
    · rw [parent?_child_of_lt s b old, parent?_child_of_lt s c (mirrors.size ▸ old),
        mirrors.parent]
    · rw [parent?_child_self inside b, ← mirrors.size, parent?_child_self (mirrors.size ▸ inside) c]
    · rw [parent?_eq_none_of_ge, parent?_eq_none_of_ge]
      · rw [size_child]
        exact young
      · rw [size_child, mirrors.size]
        exact young
  names u := by
    rcases Nat.lt_trichotomy u h.size with old | rfl | young
    · rw [bindings_child_of_lt s b old, bindings_child_of_lt s c (mirrors.size ▸ old),
        mirrors.names]
    · rw [bindings_child_self, ← mirrors.size, bindings_child_self, names]
    · rw [bindings_eq_empty_of_ge, bindings_eq_empty_of_ge]
      · rfl
      · rw [size_child]
        exact young
      · rw [size_child, mirrors.size]
        exact young
  related u n v t found bound := by
    have below := lt_size_of_resolveLocal found
    rw [size_child, Nat.lt_succ_iff] at below
    rcases Nat.lt_or_eq_of_le below with old | rfl
    · rw [resolveLocal, bindings_child_of_lt s b old] at found
      rw [resolveLocal, bindings_child_of_lt s c (mirrors.size ▸ old)] at bound
      exact mirrors.related u n v t found bound
    · rw [resolveLocal, bindings_child_self] at found
      rw [resolveLocal, ← mirrors.size, bindings_child_self] at bound
      exact related n v t found bound

theorem child_empty (mirrors : T.Mirrors R h) (inside : s < h.size) :
    (T.child s .empty).2.Mirrors R (h.child s .empty).2 :=
  mirrors.child inside rfl fun n v t found _ => by simp at found

/-- A name is bound in both heaps. -/
theorem put (mirrors : T.Mirrors R h) (inside : s < h.size) (related : R n v t) :
    (T.put s n t).Mirrors R (h.put s n v) where
  size := by rw [size_put, size_put, mirrors.size]
  parent u := by rw [parent?_put, parent?_put, mirrors.parent]
  names u := by
    by_cases here : s = u
    · subst here
      rw [bindings_put_self inside, bindings_put_self (mirrors.size ▸ inside)]
      have names := mirrors.names s
      by_cases bound : n ∈ (h.bindings s).names
      · rw [Bindings.names_insert_of_mem v bound, Bindings.names_insert_of_mem t (names ▸ bound),
          names]
      · rw [Bindings.names_insert_of_not_mem v bound,
          Bindings.names_insert_of_not_mem t (names ▸ bound), names]
    · rw [bindings_put_of_ne here, bindings_put_of_ne here, mirrors.names]
  related u m v' t' found bound := by
    rw [resolveLocal_put inside] at found
    rw [resolveLocal_put (mirrors.size ▸ inside)] at bound
    split at found
    case isTrue here =>
      rw [if_pos here] at bound
      obtain rfl := Option.some.inj found
      obtain rfl := Option.some.inj bound
      exact here.2 ▸ related
    case isFalse away =>
      rw [if_neg away] at bound
      exact mirrors.related u m v' t' found bound

/-- A bound name gets another value of its type. -/
theorem assign (mirrors : T.Mirrors R h) (bound : T.resolveLocal s n = some t)
    (related : R n v t) : T.Mirrors R (h.put s n v) := by
  have inside : s < h.size := mirrors.size ▸ lt_size_of_resolveLocal bound
  obtain ⟨_, old, _⟩ := mirrors.exists_value bound
  have mem : n ∈ (h.bindings s).names := by
    rw [← binds_iff, binds_iff_isSome, old]
    rfl
  refine ⟨by rw [size_put, mirrors.size], fun u => by rw [parent?_put, mirrors.parent], ?_, ?_⟩
  · intro u
    by_cases here : s = u
    · subst here
      rw [bindings_put_self inside, Bindings.names_insert_of_mem v mem, mirrors.names]
    · rw [bindings_put_of_ne here, mirrors.names]
  · intro u m v' t' found bound'
    rw [resolveLocal_put inside] at found
    split at found
    case isTrue here =>
      obtain ⟨rfl, rfl⟩ := here
      obtain rfl := Option.some.inj found
      rw [bound] at bound'
      exact Option.some.inj bound' ▸ related
    case isFalse => exact mirrors.related u m v' t' found bound'

end Heap.Mirrors

end GradualScript
