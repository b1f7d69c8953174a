/-
# GradualScript.Proofs.Scope.Links -- searches along links between scopes

A name is searched in three ways: in the scopes around a scope, along the prototypes of a type, and
along those of an object. In each of them a link leads from a scope to at most one other scope, and
the search follows the links until it comes to a scope that binds the name. This module says once
what such a search answers; `next` are its links.

A walk along links that ends visits no scope twice, so the size of the heap bounds its steps
(`Walk.Ends.endsWithin`). What a binding changes for a search is decided by where the search stops:
`Reaches` says that the walk comes to a scope before any other that binds the name, and a new
binding there is seen exactly by the searches for the name that reach it (`Searches.of_reaches`,
`Searches.of_apart`).
-/

import GradualScript.Proofs.Scope.Growth
import Mathlib.Data.Finset.Card
import Mathlib.Logic.Relation

namespace GradualScript

universe u

/-! ## Walks that end -/

namespace Walk

variable {next : ScopeId → Option ScopeId} {size : Nat} {m p : ScopeId}

/-- The walk from `m` along `next` comes to an end. -/
def Ends (next : ScopeId → Option ScopeId) (m : ScopeId) : Prop :=
  Acc (fun p m => next m = some p) m

/-- Within `n` steps, the walk from `m` comes to an end or leaves the first `size` scopes. -/
def EndsWithin (next : ScopeId → Option ScopeId) (size : Nat) : Nat → ScopeId → Prop
  | 0, m => size ≤ m
  | n + 1, m => ∀ p, next m = some p → EndsWithin next size n p

namespace Ends

theorem tail (ends : Ends next m) (link : next m = some p) : Ends next p := ends.inv link

/-- Links that all lead to older scopes come to an end. -/
theorem of_lt (older : ∀ m p, next m = some p → p < m) (m : ScopeId) : Ends next m :=
  Subrelation.accessible (fun {p m} link => older m p link) (Nat.lt_wfRel.wf.apply m)

/-- A walk that ends does not come back. -/
theorem not_returns (ends : Ends next m) :
    ¬Relation.TransGen (fun p m => next m = some p) m m := by
  have closed := ends.transGen
  clear ends
  induction closed with
  | intro m _ ih =>
    intro cycle
    exact ih m cycle cycle

/-- A walk that has come from each of `visited` to `m` has at most the other scopes before it. -/
theorem endsWithin_of_visited (inside : ∀ m p, next m = some p → m < size) {n : Nat}
    (ends : Ends next m) (visited : Finset ScopeId)
    (come : ∀ v ∈ visited, v < size ∧ Relation.TransGen (fun p m => next m = some p) m v)
    (enough : size ≤ n + visited.card) : EndsWithin next size n m := by
  have unvisited : m ∉ visited := fun mem => ends.not_returns (come m mem).2
  induction n generalizing m visited with
  | zero =>
    by_contra within
    have more : (insert m visited).card ≤ (Finset.range size).card := by
      refine Finset.card_le_card fun v mem => Finset.mem_range.mpr ?_
      rcases Finset.mem_insert.mp mem with rfl | mem
      · exact Nat.lt_of_not_le within
      · exact (come v mem).1
    rw [Finset.card_insert_of_notMem unvisited, Finset.card_range] at more
    omega
  | succ n ih =>
    intro p link
    have come' : ∀ v ∈ insert m visited,
        v < size ∧ Relation.TransGen (fun p m => next m = some p) p v := by
      intro v mem
      rcases Finset.mem_insert.mp mem with rfl | mem
      · exact ⟨inside _ _ link, .single link⟩
      · exact ⟨(come v mem).1, .head link (come v mem).2⟩
    refine ih (ends.tail link) (insert m visited) come' ?_ fun mem =>
      (ends.tail link).not_returns (come' p mem).2
    rw [Finset.card_insert_of_notMem unvisited]
    omega

/-- A walk among `size` scopes that ends has at most `size` steps. -/
theorem endsWithin (inside : ∀ m p, next m = some p → m < size) (ends : Ends next m) :
    EndsWithin next size size m :=
  endsWithin_of_visited inside ends ∅ (by simp) (by simp)

end Ends

end Walk

/-! ## Searches -/

namespace Heap

variable {α : Type u} {h h' : Heap α} {next : ScopeId → Option ScopeId} {name : String}
  {last find find' : ScopeId → Option α} {m o : ScopeId} {v : α}

/-- The walk from `m` comes to `o`, and none of the scopes before `o` binds `name`. -/
inductive Reaches (h : Heap α) (next : ScopeId → Option ScopeId) (name : String) (o : ScopeId) :
    ScopeId → Prop
  | here : Reaches h next name o o
  | further {m p : ScopeId} (link : next m = some p) (free : name ∉ (h.bindings m).names)
      (rest : Reaches h next name o p) : Reaches h next name o m

/-- `find` searches `name` in a scope and then, if the scope does not bind it, in the one that
`next` leads to. Where there is no next one, it answers what `last` says. -/
structure Searches (h : Heap α) (next : ScopeId → Option ScopeId) (name : String)
    (last find : ScopeId → Option α) : Prop where
  bound : ∀ {m v}, h.resolveLocal m name = some v → find m = some v
  further : ∀ {m p}, Walk.Ends next m → h.resolveLocal m name = none → next m = some p →
    find m = find p
  ended : ∀ {m}, h.resolveLocal m name = none → next m = none → find m = last m

theorem resolveLocal_eq_none_iff : h.resolveLocal m name = none ↔ name ∉ (h.bindings m).names :=
  Bindings.find?_eq_none_iff

/-- A heap in which a scope binds a name is not empty. -/
theorem exists_size_eq (own : h.resolveLocal m name = some v) : ∃ k, h.size = k + 1 :=
  Nat.exists_eq_add_one_of_ne_zero
    (Nat.ne_of_gt (Nat.zero_lt_of_lt (lt_size_of_resolveLocal own)))

namespace Searches

/-- A search answers what it answers from the scopes that it reaches. -/
theorem eq_of_reaches (search : h.Searches next name last find) (ends : Walk.Ends next m)
    (reaches : h.Reaches next name o m) : find m = find o := by
  induction reaches with
  | here => rfl
  | further link free _ ih =>
    rw [search.further ends (resolveLocal_eq_none_iff.mpr free) link]
    exact ih (ends.tail link)

/-- A search depends on its links and on what the scopes bind the name to. -/
theorem congr (search : h.Searches next name last find)
    (search' : h'.Searches next name last find')
    (same : ∀ m, h'.resolveLocal m name = h.resolveLocal m name) (ends : Walk.Ends next m) :
    find' m = find m := by
  induction ends with
  | intro m ends ih =>
    have ends : Walk.Ends next m := .intro m ends
    cases own : h.resolveLocal m name with
    | some v => rw [search.bound own, search'.bound ((same m).trans own)]
    | none =>
      have own' := (same m).trans own
      cases link : next m with
      | none => rw [search.ended own link, search'.ended own' link]
      | some p => rw [search.further ends own link, search'.further ends own' link, ih p link]

/-- What is bound in `o` is seen by the searches that reach `o`. -/
theorem of_reaches (inside : o < h.size)
    (search' : (h.put o name v).Searches next name last find') (ends : Walk.Ends next m)
    (reaches : h.Reaches next name o m) : find' m = some v := by
  have here : find' o = some v := search'.bound (by rw [resolveLocal_put inside]; simp)
  induction reaches with
  | here => exact here
  | @further m p link free _ ih =>
    by_cases same : m = o
    · rw [same, here]
    · have own : (h.put o name v).resolveLocal m name = none := by
        rw [resolveLocal_put inside, if_neg fun both => same both.1]
        exact resolveLocal_eq_none_iff.mpr free
      rw [search'.further ends own link]
      exact ih (ends.tail link)

/-- It is not seen by the others. -/
theorem of_not_reaches (inside : o < h.size) (search : h.Searches next name last find)
    (search' : (h.put o name v).Searches next name last find') (ends : Walk.Ends next m)
    (apart : ¬h.Reaches next name o m) : find' m = find m := by
  induction ends with
  | intro m ends ih =>
    have ends : Walk.Ends next m := .intro m ends
    -- The walk has not come to `o` yet, so the scope `m` is as it was.
    have ne : m ≠ o := fun same => apart (same ▸ .here)
    have same : (h.put o name v).resolveLocal m name = h.resolveLocal m name := by
      rw [resolveLocal_put inside, if_neg fun both => ne both.1]
    cases own : h.resolveLocal m name with
    | some u => rw [search.bound own, search'.bound (same.trans own)]
    | none =>
      have own' := same.trans own
      cases link : next m with
      | none => rw [search.ended own link, search'.ended own' link]
      | some p =>
        rw [search.further ends own link, search'.further ends own' link]
        exact ih p link fun rest =>
          apart (.further link (resolveLocal_eq_none_iff.mp own) rest)

/-- Nor is it seen by a search for another name. -/
theorem of_apart {bound : String} (inside : o < h.size)
    (search : h.Searches next name last find)
    (search' : (h.put o bound v).Searches next name last find') (ends : Walk.Ends next m)
    (apart : ¬(name = bound ∧ h.Reaches next bound o m)) : find' m = find m := by
  by_cases same : name = bound
  · subst same
    exact search.of_not_reaches inside search' ends fun reaches => apart ⟨rfl, reaches⟩
  · refine search.congr search' (fun t => ?_) ends
    rw [resolveLocal_put inside, if_neg fun both => same both.2]

end Searches

/-! ## Searching the scopes around a scope -/

theorem ends_parent? (h : Heap α) (m : ScopeId) : Walk.Ends h.parent? m :=
  .of_lt (fun _ _ link => parent?_lt link) m

theorem searches_resolve (h : Heap α) (name : String) :
    h.Searches h.parent? name (fun _ => none) (h.resolve · name) where
  bound own := by rw [resolve_eq, own, Option.some_or]
  further _ own link := by rw [resolve_eq, own, link, Option.none_or]
  ended own link := by rw [resolve_eq, own, link, Option.none_or]

/-- Outward from `t` one comes to `o` if `o` is on the chain of `t`, and the scopes before it do not
bind the name. -/
theorem reaches_parent?_iff {t : ScopeId} :
    h.Reaches h.parent? name o t ↔
      ∃ inner outer, h.chain t = inner ++ o :: outer ∧
        ∀ u ∈ inner, name ∉ (h.bindings u).names := by
  constructor
  · intro reaches
    induction reaches with
    | here => exact ⟨[], _, chain_eq h o, by simp⟩
    | @further m p link free _ ih =>
      obtain ⟨inner, outer, chain, frees⟩ := ih
      refine ⟨m :: inner, outer, by rw [chain_of_parent link, chain, List.cons_append], ?_⟩
      exact List.forall_mem_cons.mpr ⟨free, frees⟩
  · rintro ⟨inner, outer, chain, frees⟩
    -- The scopes before `o` are taken off one by one.
    induction inner generalizing t with
    | nil =>
      rw [chain_eq, List.nil_append, List.cons.injEq] at chain
      rw [chain.1]
      exact .here
    | cons u inner ih =>
      rw [chain_eq, List.cons_append, List.cons.injEq] at chain
      obtain ⟨rfl, rest⟩ := chain
      rw [List.forall_mem_cons] at frees
      cases link : h.parent? t with
      | none => simp [link] at rest
      | some p =>
        rw [link] at rest
        exact .further link frees.1 (ih rest frees.2)

/-- A chain visits no scope twice. -/
theorem nodup_chain (h : Heap α) (t : ScopeId) : (h.chain t).Nodup := by
  induction t using Nat.strongRecOn with
  | ind t ih =>
    cases link : h.parent? t with
    | none => simp [chain_of_no_parent link]
    | some p =>
      have below := parent?_lt link
      rw [chain_of_parent link, List.nodup_cons]
      refine ⟨fun mem => ?_, ih p below⟩
      exact absurd (le_of_mem_chain mem) (Nat.not_le.mpr below)

/-- The owner of a name is the scope that binds it and is reached first. -/
theorem owner?_eq_some_iff {t : ScopeId} :
    h.owner? t name = some o ↔ h.Reaches h.parent? name o t ∧ name ∈ (h.bindings o).names := by
  constructor
  · intro found
    refine ⟨?_, binds_iff.mp (binds_of_owner? found)⟩
    exact owner?_induct found (fun _ => .here) fun _ _ link free _ rest => .further link free rest
  · rintro ⟨reaches, bound⟩
    induction reaches with
    | here => rw [owner?_eq, if_pos (binds_iff.mpr bound)]
    | further link free _ ih =>
      rw [owner?_eq, if_neg (mt binds_iff.mp free), link]
      exact ih

end Heap

end GradualScript
