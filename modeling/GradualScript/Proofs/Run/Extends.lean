/-
# GradualScript.Proofs.Run.Extends -- how the scopes of a run grow

A run changes what names are bound to, but it never takes a name away and never moves a scope.
`Heap.Extends free` says that between two heaps old scopes kept their parents and their names, and
that only those in `free` may bind more names. What can be seen from a scope (`Heap.Sees`) is
therefore seen for the rest of the run.
-/

import GradualScript.Proofs.Scope.Growth
import Mathlib.Data.Set.Insert

namespace GradualScript

universe u

variable {α : Type u}

/-- Old scopes keep their parents and their names. Only those in `free` may bind more. -/
structure Heap.Extends (free : Set ScopeId) (h h' : Heap α) : Prop where
  size_le : h.size ≤ h'.size
  parent : ∀ s, s < h.size → h'.parent? s = h.parent? s
  names : ∀ s, s < h.size → (h.bindings s).names <+: (h'.bindings s).names
  same : ∀ s, s < h.size → s ∉ free → (h'.bindings s).names = (h.bindings s).names

/-- A lookup of `n` in `s` finds something. -/
def Heap.Sees (h : Heap α) (s : ScopeId) (n : String) : Prop :=
  ∃ t ∈ h.chain s, n ∈ (h.bindings t).names

namespace Heap

variable {h h' h'' : Heap α} {free free' : Set ScopeId} {s t : ScopeId} {n : String}

namespace Extends

theorem refl (free : Set ScopeId) (h : Heap α) : Extends free h h where
  size_le := Nat.le_refl _
  parent _ _ := rfl
  names _ _ := List.prefix_rfl
  same _ _ _ := rfl

theorem trans (first : Extends free h h') (second : Extends free h' h'') : Extends free h h'' where
  size_le := Nat.le_trans first.size_le second.size_le
  parent s inside := by
    rw [second.parent s (Nat.lt_of_lt_of_le inside first.size_le), first.parent s inside]
  names s inside := (first.names s inside).trans
    (second.names s (Nat.lt_of_lt_of_le inside first.size_le))
  same s inside kept := by
    rw [second.same s (Nat.lt_of_lt_of_le inside first.size_le) kept, first.same s inside kept]

/-- Scopes that are not in the old heap need not be listed as free. -/
theorem of_old (grows : Extends free' h h') (old : ∀ s ∈ free', s < h.size → s ∈ free) :
    Extends free h h' where
  size_le := grows.size_le
  parent := grows.parent
  names := grows.names
  same s inside kept := grows.same s inside fun mem => kept (old s mem inside)

theorem trans_fresh (first : Extends free h h') (second : Extends free' h' h'')
    (old : ∀ s ∈ free', s < h.size → s ∈ free) : Extends free h h'' := by
  have first' : Extends (free ∪ free') h h' := first.of_old fun _ mem _ => Or.inl mem
  have second' : Extends (free ∪ free') h' h'' := second.of_old fun _ mem _ => Or.inr mem
  exact (first'.trans second').of_old fun s mem inside => mem.elim id fun mem => old s mem inside

theorem child (free : Set ScopeId) (h : Heap α) (s : ScopeId) (b : Bindings α) :
    Extends free h (h.child s b).2 where
  size_le := Nat.le_of_lt (lt_size_child h s b)
  parent _ inside := parent?_child_of_lt s b inside
  names _ inside := by simp only [bindings_child_of_lt s b inside, List.prefix_rfl]
  same _ inside _ := by rw [bindings_child_of_lt s b inside]

theorem root (free : Set ScopeId) (h : Heap α) (b : Bindings α) : Extends free h (h.root b).2 where
  size_le := Nat.le_of_lt (lt_size_root h b)
  parent _ inside := parent?_root_of_lt b inside
  names _ inside := by simp only [bindings_root_of_lt b inside, List.prefix_rfl]
  same _ inside _ := by rw [bindings_root_of_lt b inside]

theorem put (h : Heap α) (s : ScopeId) (n : String) (v : α) : Extends {s} h (h.put s n v) where
  size_le := Nat.le_of_eq (size_put ..).symm
  parent t _ := parent?_put ..
  names t inside := by
    by_cases here : s = t
    · subst here
      rw [bindings_put_self inside]
      by_cases bound : n ∈ (h.bindings s).names
      · simp only [Bindings.names_insert_of_mem v bound, List.prefix_rfl]
      · rw [Bindings.names_insert_of_not_mem v bound]
        exact List.prefix_append _ _
    · simp only [bindings_put_of_ne here, List.prefix_rfl]
  same t _ kept := by rw [bindings_put_of_ne fun here => kept here.symm]

/-- Giving a bound name another value binds no name. -/
theorem put_bound (free : Set ScopeId) (bound : n ∈ (h.bindings s).names) (v : α) :
    Extends free h (h.put s n v) := by
  refine ⟨(put h s n v).size_le, (put h s n v).parent, (put h s n v).names, fun t inside _ => ?_⟩
  by_cases here : s = t
  · subst here
    rw [bindings_put_self inside, Bindings.names_insert_of_mem v bound]
  · rw [bindings_put_of_ne here]

theorem chain (grows : Extends free h h') : s < h.size → h'.chain s = h.chain s :=
  chain_of_parents grows.parent

theorem mem_names (grows : Extends free h h') (bound : n ∈ (h.bindings s).names) :
    n ∈ (h'.bindings s).names := by
  have inside : s < h.size := lt_size_of_binds (binds_iff.mpr bound)
  exact (grows.names s inside).subset bound

/-- What is seen from an old scope is seen ever after. -/
theorem sees (grows : Extends free h h') (inside : s < h.size) (seen : h.Sees s n) :
    h'.Sees s n := by
  obtain ⟨t, mem, bound⟩ := seen
  exact ⟨t, (grows.chain inside).symm ▸ mem, grows.mem_names bound⟩

end Extends

/-! ## What is seen -/

theorem sees_iff_owner? : h.Sees s n ↔ (h.owner? s n).isSome := by
  rw [owner?, List.find?_isSome]
  simp only [binds_iff, Sees]

theorem sees_iff_resolve : h.Sees s n ↔ (h.resolve s n).isSome := by
  rw [sees_iff_owner?, owner?_isSome_iff]

theorem Sees.of_bound (bound : n ∈ (h.bindings s).names) : h.Sees s n :=
  ⟨s, h.mem_chain_self s, bound⟩

/-- A new scope sees its own names, and what is seen around it. -/
theorem sees_child (inside : s < h.size) {b : Bindings α} :
    (h.child s b).2.Sees h.size n ↔ n ∈ b.names ∨ h.Sees s n := by
  have chain : (h.child s b).2.chain h.size = h.size :: h.chain s := by
    rw [chain_of_parent (parent?_child_self inside b), (Extends.child ∅ h s b).chain inside]
  have old : ∀ t ∈ h.chain s, (h.child s b).2.bindings t = h.bindings t := fun t mem =>
    bindings_child_of_lt s b (Nat.lt_of_le_of_lt (le_of_mem_chain mem) inside)
  simp only [Sees, chain, List.mem_cons, exists_eq_or_imp, bindings_child_self]
  refine or_congr_right (exists_congr fun t => and_congr_right fun mem => ?_)
  rw [old t mem]

end Heap

end GradualScript
