/-
# GradualScript.Proofs.Scope.Collection -- the names of a scope, collected

What is visible in a scope can be asked for in two ways. A lookup walks outward and stops at the
first scope that binds the name. A collection begins at the root: it takes over what the scope
around has collected and then inserts the scope's own bindings, each in the place of the one that it
shadows, or at the end. Two walks in opposite directions agree because an insertion keeps places and
replaces values: the value of a name is the innermost one, its place is the outermost one.

Both claims come down to what merging bindings does to the view of a `Bindings`: the later ones win
(`find?_merge`), and only the new names go to the end (`names_merge`).
-/

import GradualScript.Proofs.Scope.Changes

namespace GradualScript

universe u

variable {α : Type u}

namespace Bindings

/-! ## Merging -/

theorem eq_of_entries {b c : Bindings α} (same : b.entries = c.entries) : b = c := by
  cases b
  cases c
  cases same
  rfl

private theorem find?_foldl_insert (n : String) : ∀ {pairs : List (String × α)} {b : Bindings α},
    (pairs.map Prod.fst).Nodup →
      (pairs.foldl (fun b e => b.insert e.1 e.2) b).find? n = (pairs.lookup n).or (b.find? n)
  | [], b, _ => rfl
  | e :: rest, b, nodup => by
    obtain ⟨new, nodup⟩ := List.nodup_cons.mp nodup
    rw [List.foldl_cons, find?_foldl_insert n nodup, find?_insert, List.lookup_cons]
    by_cases same : n = e.1
    · -- The rest does not have the name again, so `e` is the last to have it.
      subst same
      rw [lookup_eq_none_of_not_mem new, if_pos rfl, beq_self_eq_true]
      rfl
    · rw [if_neg same, beq_eq_false_iff_ne.mpr same]

/-- Of two bindings of one name the merged-in one counts. -/
theorem find?_merge (b c : Bindings α) (n : String) :
    (b.merge c).find? n = (c.find? n).or (b.find? n) :=
  find?_foldl_insert n c.names_nodup

private theorem names_foldl_insert : ∀ {pairs : List (String × α)} {b : Bindings α},
    (pairs.map Prod.fst).Nodup →
      (pairs.foldl (fun b e => b.insert e.1 e.2) b).names =
        b.names ++ (pairs.map Prod.fst).filter (· ∉ b.names)
  | [], b, _ => by simp
  | e :: rest, b, nodup => by
    obtain ⟨new, nodup⟩ := List.nodup_cons.mp nodup
    rw [List.foldl_cons, names_foldl_insert nodup, List.map_cons]
    by_cases bound : e.1 ∈ b.names
    · rw [names_insert_of_mem _ bound, List.filter_cons_of_neg (by simpa using bound)]
    · rw [names_insert_of_not_mem _ bound, List.filter_cons_of_pos (by simpa using bound),
        List.append_assoc, List.singleton_append]
      congr 2
      -- The name that has been added is not among the names that follow.
      refine List.filter_congr fun m mem => ?_
      have apart : m ≠ e.1 := fun same => new (same ▸ mem)
      simp [apart]

/-- Names that are there keep their places; new ones follow in their own order. -/
theorem names_merge (b c : Bindings α) :
    (b.merge c).names = b.names ++ c.names.filter (· ∉ b.names) :=
  names_foldl_insert c.names_nodup

/-- Bindings that are inserted one by one are the same bindings. -/
theorem empty_merge (b : Bindings α) : (empty : Bindings α).merge b = b :=
  eq_of_entries (entries_ofList b.names_nodup)

end Bindings

namespace Heap

variable {h : Heap α} {s p t : ScopeId} {n : String}

/-! ## Collecting -/

/-- The bindings of a scope, and with `ancestors` those of the scopes around it too: what the scope
around it has collected, and then each of its own bindings inserted into that. -/
def gather (h : Heap α) (ancestors : Bool) (s : ScopeId) : Bindings α :=
  match _ : if ancestors then h.parent? s else none with
  | some p => (h.gather true p).merge (h.bindings s)
  | none => Bindings.empty.merge (h.bindings s)
termination_by s
decreasing_by
  rename_i link
  split at link
  · exact parent?_lt link
  · cases link

theorem gather_false (h : Heap α) (s : ScopeId) : h.gather false s = h.bindings s := by
  rw [gather]
  exact Bindings.empty_merge _

theorem gather_of_no_parent (root : h.parent? s = none) : h.gather true s = h.bindings s := by
  rw [gather]
  split
  case h_1 p link => exact absurd (link.symm.trans root) (Option.some_ne_none p)
  case h_2 => exact Bindings.empty_merge _

theorem gather_of_parent (link : h.parent? s = some p) :
    h.gather true s = (h.gather true p).merge (h.bindings s) := by
  rw [gather]
  split
  case h_1 q link' => rw [Option.some.inj (link.symm.trans link')]
  case h_2 root => exact absurd (link.symm.trans root) (Option.some_ne_none p)

/-- The collection is the chain of the scope merged, from its outermost scope on. -/
theorem gather_true (h : Heap α) (s : ScopeId) : h.gather true s = h.collect s := by
  induction s using Nat.strongRecOn with
  | ind s ih =>
    rw [collect]
    cases link : h.parent? s with
    | none =>
      rw [gather_of_no_parent link, chain_of_no_parent link]
      exact (Bindings.empty_merge _).symm
    | some p =>
      rw [gather_of_parent link, chain_of_parent link, List.reverse_cons, List.foldl_append,
        ih p (parent?_lt link)]
      rfl

/-- A collection binds a name to what a lookup of it comes to. -/
theorem find?_gather (h : Heap α) (s : ScopeId) (n : String) :
    (h.gather true s).find? n = h.resolve s n := by
  induction s using Nat.strongRecOn with
  | ind s ih =>
    rw [resolve_eq]
    cases link : h.parent? s with
    | none =>
      rw [gather_of_no_parent link, Option.or_none]
      rfl
    | some p =>
      rw [gather_of_parent link, Bindings.find?_merge, ih p (parent?_lt link)]
      rfl

/-! ## The order of a collection -/

/-- The outermost scope, from `s` outward, that binds `n`. -/
def outermostBinder? (h : Heap α) (s : ScopeId) (n : String) : Option ScopeId :=
  (h.chain s).reverse.find? fun t => h.binds t n

theorem outermostBinder?_of_no_parent (root : h.parent? s = none) :
    h.outermostBinder? s n = if h.binds s n then some s else none := by
  rw [outermostBinder?, chain_of_no_parent root, List.reverse_singleton, List.find?_singleton]

theorem outermostBinder?_of_parent (link : h.parent? s = some p) :
    h.outermostBinder? s n =
      (h.outermostBinder? p n).or (if h.binds s n then some s else none) := by
  rw [outermostBinder?, chain_of_parent link, List.reverse_cons, List.find?_append,
    List.find?_singleton]
  rfl

/-- A scope on the chain binds a name exactly if a lookup of the name comes to something. -/
theorem outermostBinder?_isSome_iff :
    (h.outermostBinder? s n).isSome ↔ (h.resolve s n).isSome := by
  rw [← owner?_isSome_iff, outermostBinder?, owner?, List.find?_isSome, List.find?_isSome]
  simp only [List.mem_reverse]

theorem outermostBinder?_eq_none_iff :
    h.outermostBinder? s n = none ↔ n ∉ (h.gather true s).names := by
  rw [← Bindings.find?_eq_none_iff, find?_gather, ← Option.not_isSome_iff_eq_none,
    outermostBinder?_isSome_iff, Option.not_isSome_iff_eq_none]

/-- The scopes around `s` do not include `s`. -/
theorem outermostBinder?_ne_of_parent (link : h.parent? s = some p) :
    h.outermostBinder? p n ≠ some s := by
  intro first
  have outer : s ∈ h.chain p := List.mem_reverse.mp (List.mem_of_find?_eq_some first)
  exact Nat.not_lt.mpr (le_of_mem_chain outer) (parent?_lt link)

/-- Of a name that `s` binds, `s` is the outermost binder exactly if nothing around it has collected
the name. -/
theorem outermostBinder?_eq_self_iff (link : h.parent? s = some p)
    (bound : n ∈ (h.bindings s).names) :
    h.outermostBinder? s n = some s ↔ n ∉ (h.gather true p).names := by
  rw [outermostBinder?_of_parent link, if_pos (binds_iff.mpr bound), ← outermostBinder?_eq_none_iff]
  constructor
  · intro own
    cases first : h.outermostBinder? p n with
    | none => rfl
    | some o =>
      rw [first, Option.some_or] at own
      exact absurd (first.trans own) (outermostBinder?_ne_of_parent link)
  · intro none
    rw [none, Option.none_or]

/-- A name that is bound around `s` has there the outermost binder that it has for `s`. -/
theorem outermostBinder?_of_outer (link : h.parent? s = some p) (outer : t ∈ h.chain p)
    (bound : n ∈ (h.bindings t).names) : h.outermostBinder? s n = h.outermostBinder? p n := by
  have known : (h.outermostBinder? p n).isSome := by
    rw [outermostBinder?, List.find?_isSome]
    exact ⟨t, List.mem_reverse.mpr outer, binds_iff.mpr bound⟩
  obtain ⟨o, first⟩ := Option.isSome_iff_exists.mp known
  rw [outermostBinder?_of_parent link, first, Option.some_or]

/-- The names of a collection, from the outermost scope of the chain inward: each scope adds those
of its names, in their order, that no scope around it binds. -/
theorem names_gather (h : Heap α) (s : ScopeId) :
    (h.gather true s).names = (h.chain s).reverse.flatMap fun t =>
      (h.bindings t).names.filter fun n => h.outermostBinder? s n = some t := by
  induction s using Nat.strongRecOn with
  | ind s ih =>
    cases link : h.parent? s with
    | none =>
      rw [gather_of_no_parent link, chain_of_no_parent link, List.reverse_singleton,
        List.flatMap_singleton]
      refine (List.filter_eq_self.mpr fun n mem => ?_).symm
      rw [outermostBinder?_of_no_parent link, if_pos (binds_iff.mpr mem)]
      exact decide_eq_true rfl
    | some p =>
      rw [gather_of_parent link, Bindings.names_merge, chain_of_parent link, List.reverse_cons,
        List.flatMap_append, List.flatMap_singleton, ih p (parent?_lt link)]
      congr 1
      · refine List.flatMap_congr fun t outer => List.filter_congr fun n mem => ?_
        rw [outermostBinder?_of_outer link (List.mem_reverse.mp outer) mem]
      · refine List.filter_congr fun n mem => decide_eq_decide.mpr ?_
        rw [← ih p (parent?_lt link)]
        exact (outermostBinder?_eq_self_iff link mem).symm

/-- From no scopes on, a scope binds the names that the history defines there, in their order. -/
theorem names_after_history (history : List (ScopeChange α)) (s : ScopeId) :
    ((SharedScopes.empty.after history).heap.bindings s).names =
      SharedScopes.namesOf s (SharedScopes.empty.definitions history) := by
  rw [SharedScopes.names_after SharedScopes.formed_empty history s]
  simp [SharedScopes.empty, bindings, empty]

/-- In every heap, of types or of values, and for every scope `s`: the collection with ancestors
binds a name to a value exactly if a lookup of the name in `s` comes to that value. No name is in it
twice, and its names come from the outermost scope of the chain inward; a scope gives those of its
names, in its own order, that it is the outermost one to bind. So a name that is shadowed keeps the
place that it has further out. The collection without ancestors binds a name to a value exactly if
`s` itself does, and has the names of `s` in their order. The two are what the library keeps as
`collect` and `bindings`.

The order of the names of a scope is the order of their definitions, whatever the history of changes
that has led to the heap. -/
theorem collection_agrees (h : Heap α) (s : ScopeId) :
    (∀ n v, (n, v) ∈ (h.gather true s).entries ↔ h.resolve s n = some v) ∧
    (h.gather true s).names.Nodup ∧
    (h.gather true s).names = ((h.chain s).reverse.flatMap fun t =>
      (h.bindings t).names.filter fun n => h.outermostBinder? s n = some t) ∧
    (∀ n v, (n, v) ∈ (h.gather false s).entries ↔ h.resolveLocal s n = some v) ∧
    (h.gather false s).names = (h.bindings s).names ∧
    h.gather true s = h.collect s ∧ h.gather false s = h.bindings s ∧
    ∀ (history : List (ScopeChange α)) (t : ScopeId),
      let made := (SharedScopes.empty.after history).heap
      let defined := fun u => SharedScopes.namesOf u (SharedScopes.empty.definitions history)
      (made.gather false t).names = defined t ∧
      (made.gather true t).names = (made.chain t).reverse.flatMap fun u =>
        (defined u).filter fun n => made.outermostBinder? t n = some u := by
  refine ⟨fun n v => ?_, (h.gather true s).names_nodup, h.names_gather s, fun n v => ?_, ?_,
    h.gather_true s, h.gather_false s, fun history t => ?_⟩
  · rw [← find?_gather]
    exact ⟨Bindings.find?_eq_some_of_mem, Bindings.mem_of_find?⟩
  · rw [gather_false]
    exact ⟨Bindings.find?_eq_some_of_mem, Bindings.mem_of_find?⟩
  · rw [gather_false]
  · intro made defined
    refine ⟨?_, ?_⟩
    · rw [gather_false]
      exact names_after_history history t
    · rw [names_gather]
      exact List.flatMap_congr fun u _ => by rw [names_after_history history u]

/-- An inner scope binds `b` anew: the new value stands in the old place. -/
example : ((SharedScopes.empty.after [.root, .define 0 "a" 1, .define 0 "b" 2, .child 0,
    .define 1 "b" 20, .define 1 "c" 30]).heap.collect 1).entries =
      [("a", (1 : Int)), ("b", 20), ("c", 30)] := by decide

end Heap

end GradualScript
