/-
# GradualScript.Proofs.Scope.Growth -- what a grown heap of scopes answers

Both passes grow a heap in the same three ways: a new scope (`root`, `child`), a new name in an
old scope, and a new value for a bound name (both `put`). This module says once what each of them
does to the questions that are put to a heap: parents, bindings, chains and resolution. The proofs
about the two passes cite these equations and do not look into the array of frames.
-/

import GradualScript.Scope.Heap
import Mathlib.Data.List.Find
import Mathlib.Tactic.Common

namespace GradualScript

universe u v

variable {α : Type u} {β : Type v}

theorem lookup_eq_none_of_not_mem {entries : List (String × α)} {name : String}
    (unbound : name ∉ entries.map Prod.fst) : entries.lookup name = none := by
  rw [List.lookup_eq_none_iff]
  intro e mem
  have ne : name ≠ e.1 := fun same => unbound (same ▸ List.mem_map_of_mem mem)
  simpa using ne

theorem lookup_isSome_iff_mem {entries : List (String × α)} {name : String} :
    (entries.lookup name).isSome ↔ name ∈ entries.map Prod.fst := by
  rw [List.lookup_isSome_iff, List.mem_map]
  exact exists_congr fun e => and_congr_right fun _ => beq_iff_eq.trans eq_comm

/-- What is listed under a name may be changed before or after it is looked up. -/
theorem lookup_map_values (f : α → β) (name : String) : ∀ entries : List (String × α),
    (entries.map fun e => (e.1, f e.2)).lookup name = (entries.lookup name).map f
  | [] => rfl
  | e :: entries => by
    rw [List.map_cons, List.lookup_cons, List.lookup_cons, lookup_map_values f name entries]
    cases name == e.1 <;> rfl

namespace Bindings

/-- A new name comes after those that are there. -/
theorem entries_insert_of_not_mem {b : Bindings α} {name : String} (value : α)
    (h : name ∉ b.names) : (b.insert name value).entries = b.entries ++ [(name, value)] := by
  rw [insert, dif_neg (fun c => h (contains_iff.mp c))]
  rfl

theorem not_mem_names_of_not_contains {b : Bindings α} {name : String}
    (h : b.contains name = false) : name ∉ b.names := by
  intro mem
  rw [← contains_iff, h] at mem
  exact Bool.false_ne_true mem

theorem mem_names_insert {b : Bindings α} {name n : String} (value : α) :
    n ∈ (b.insert name value).names ↔ n = name ∨ n ∈ b.names := by
  by_cases h : name ∈ b.names
  · rw [names_insert_of_mem value h]
    exact ⟨Or.inr, fun hn => hn.elim (fun e => e ▸ h) id⟩
  · rw [names_insert_of_not_mem value h, List.mem_append, List.mem_singleton]
    exact or_comm

/-- Names are bound once, so each entry is the one that its name finds. -/
theorem find?_eq_some_of_mem {b : Bindings α} {name : String} {value : α}
    (h : (name, value) ∈ b.entries) : b.find? name = some value := by
  obtain ⟨entries, nodup⟩ := b
  simp only [find?] at h ⊢
  induction entries with
  | nil => cases h
  | cons e es ih =>
    simp only [List.map_cons, List.nodup_cons] at nodup
    rcases List.mem_cons.mp h with rfl | tail
    · exact List.lookup_cons_self
    · have ne : name ≠ e.1 := fun same => nodup.1 (same ▸ List.mem_map_of_mem tail)
      have neq : (name == e.1) = false := by simpa using ne
      rw [List.lookup_cons, neq]
      exact ih nodup.2 tail

theorem mem_of_find? {b : Bindings α} {name : String} {value : α}
    (h : b.find? name = some value) : (name, value) ∈ b.entries := by
  obtain ⟨entries, nodup⟩ := b
  simp only [find?] at h ⊢
  clear nodup
  induction entries with
  | nil => cases h
  | cons e es ih =>
    rw [List.lookup_cons] at h
    cases same : name == e.1 with
    | true =>
      simp only [same, Option.some.injEq] at h
      rw [beq_iff_eq] at same
      exact same ▸ h ▸ List.mem_cons_self
    | false =>
      simp only [same] at h
      exact List.mem_cons_of_mem _ (ih h)

private theorem entries_foldl_insert {pairs : List (String × α)} :
    ∀ {b : Bindings α}, (b.names ++ pairs.map Prod.fst).Nodup →
      (pairs.foldl (fun b e => b.insert e.1 e.2) b).entries = b.entries ++ pairs := by
  induction pairs with
  | nil => intro b _; simp
  | cons e es ih =>
    intro b nodup
    have fresh : e.1 ∉ b.names := by
      intro mem
      have := List.nodup_append.mp nodup
      exact this.2.2 _ mem e.1 (by simp) rfl
    rw [List.foldl_cons, ih, entries_insert_of_not_mem _ fresh]
    · simp
    · rw [names_insert_of_not_mem _ fresh]
      simpa using nodup

/-- Pairs with different names become bindings in their order. -/
theorem entries_ofList {pairs : List (String × α)} (nodup : (pairs.map Prod.fst).Nodup) :
    (ofList pairs).entries = pairs := by
  rw [ofList, entries_foldl_insert (by simpa using nodup)]
  rfl

private theorem mem_names_foldl_insert {pairs : List (String × α)} {n : String} :
    ∀ {b : Bindings α}, n ∈ (pairs.foldl (fun b e => b.insert e.1 e.2) b).names ↔
      n ∈ b.names ∨ n ∈ pairs.map Prod.fst := by
  induction pairs with
  | nil => intro b; simp
  | cons e es ih =>
    intro b
    rw [List.foldl_cons, ih, mem_names_insert, List.map_cons, List.mem_cons]
    tauto

theorem mem_names_ofList {pairs : List (String × α)} {n : String} :
    n ∈ (ofList pairs).names ↔ n ∈ pairs.map Prod.fst := by
  rw [ofList, mem_names_foldl_insert]
  simp

private theorem mem_of_find?_foldl_insert {pairs : List (String × α)} {n : String} {v : α} :
    ∀ {b : Bindings α}, (pairs.foldl (fun b e => b.insert e.1 e.2) b).find? n = some v →
      b.find? n = some v ∨ (n, v) ∈ pairs := by
  induction pairs with
  | nil => intro b h; exact Or.inl h
  | cons e es ih =>
    intro b h
    rcases ih h with found | mem
    · rw [find?_insert] at found
      by_cases same : n = e.1
      · rw [if_pos same] at found
        obtain rfl := Option.some.inj found
        exact Or.inr (same ▸ List.mem_cons_self)
      · rw [if_neg same] at found
        exact Or.inl found
    · exact Or.inr (List.mem_cons_of_mem _ mem)

/-- What is found in the bindings of a list of pairs is one of the pairs. -/
theorem mem_of_find?_ofList {pairs : List (String × α)} {n : String} {v : α}
    (h : (ofList pairs).find? n = some v) : (n, v) ∈ pairs := by
  rcases mem_of_find?_foldl_insert h with found | mem
  · simp at found
  · exact mem

@[simp] theorem entries_single (name : String) (value : α) :
    (ofList [(name, value)]).entries = [(name, value)] := entries_ofList (by simp)

@[simp] theorem names_single (name : String) (value : α) :
    (ofList [(name, value)]).names = [name] := by
  rw [names, entries_single]
  rfl

/-- Bindings of one name know no other. -/
theorem eq_of_find?_single {name n : String} {value v : α}
    (h : (ofList [(name, value)]).find? n = some v) : n = name ∧ v = value := by
  have mem := mem_of_find?_ofList h
  rw [List.mem_singleton] at mem
  exact Prod.mk.inj mem

end Bindings

namespace Heap

variable {h : Heap α} {s t : ScopeId} {n name : String}

/-! ## Questions to one scope -/

theorem parent?_eq_none_of_ge (out : h.size ≤ s) : h.parent? s = none := by
  simp [parent?, Array.getElem?_eq_none out]

theorem lt_size_of_parent? {p : ScopeId} (link : h.parent? s = some p) : s < h.size := by
  by_contra out
  rw [parent?_eq_none_of_ge (Nat.le_of_not_lt out)] at link
  cases link

theorem bindings_eq_empty_of_ge (out : h.size ≤ s) : h.bindings s = .empty := by
  simp [bindings, Array.getElem?_eq_none out]

theorem lt_size_of_resolveLocal {v : α} (found : h.resolveLocal s n = some v) : s < h.size := by
  by_contra out
  rw [resolveLocal, bindings_eq_empty_of_ge (Nat.le_of_not_lt out)] at found
  simp at found

theorem lt_size_of_binds (bound : h.binds s n = true) : s < h.size := by
  by_contra out
  rw [binds, bindings_eq_empty_of_ge (Nat.le_of_not_lt out)] at bound
  simp [Bindings.contains, Bindings.empty] at bound

theorem binds_iff : h.binds s n = true ↔ n ∈ (h.bindings s).names := Bindings.contains_iff

theorem binds_iff_isSome : h.binds s n = true ↔ (h.resolveLocal s n).isSome := by
  rw [binds_iff, resolveLocal, Bindings.isSome_find?]

theorem resolveLocal_eq_none_of_not_binds (free : h.binds s n = false) :
    h.resolveLocal s n = none := by
  rw [resolveLocal, Bindings.find?_eq_none_iff]
  exact Bindings.not_mem_names_of_not_contains free

/-! ## Walking outward -/

theorem mem_chain_self (h : Heap α) (s : ScopeId) : s ∈ h.chain s := by
  rw [chain_eq]
  exact List.mem_cons_self

/-- Outward from a scope comes the chain of the scope around it. -/
theorem chain_of_parent {p : ScopeId} (hp : h.parent? s = some p) :
    h.chain s = s :: h.chain p := by
  rw [chain_eq, hp]

theorem chain_of_no_parent (hp : h.parent? s = none) : h.chain s = [s] := by
  rw [chain_eq, hp]

/-- A chain leads to older scopes. -/
theorem le_of_mem_chain : t ∈ h.chain s → t ≤ s := by
  induction s using Nat.strongRecOn with
  | ind s ih =>
    intro mem
    cases hp : h.parent? s with
    | none =>
      rw [chain_of_no_parent hp, List.mem_singleton] at mem
      exact Nat.le_of_eq mem
    | some p =>
      have below := parent?_lt hp
      rw [chain_of_parent hp] at mem
      rcases List.mem_cons.mp mem with rfl | outer
      · exact Nat.le_refl _
      · exact Nat.le_trans (ih p below outer) (Nat.le_of_lt below)

/-- Heaps in which the scopes of one have the same parents agree on their chains. -/
theorem chain_of_parents {h' : Heap β} (same : ∀ t, t < h.size → h'.parent? t = h.parent? t) :
    s < h.size → h'.chain s = h.chain s := by
  induction s using Nat.strongRecOn with
  | ind s ih =>
    intro inside
    cases hp : h.parent? s with
    | none => rw [chain_of_no_parent hp, chain_of_no_parent ((same s inside).trans hp)]
    | some p =>
      have below := parent?_lt hp
      rw [chain_of_parent hp, chain_of_parent ((same s inside).trans hp),
        ih p below (Nat.lt_trans below inside)]

/-! ## The outermost scope -/

/-- The last scope that a lookup from `s` comes to. -/
def outermost (h : Heap α) (s : ScopeId) : ScopeId := (h.chain s).getLastD s

theorem getLast?_chain (h : Heap α) (s : ScopeId) :
    (h.chain s).getLast? = some (h.outermost s) := by
  rw [outermost, chain_eq, List.getLast?_cons, List.getLastD_cons, List.getLastD_eq_getLast?]

theorem outermost_of_no_parent (none : h.parent? s = none) : h.outermost s = s := by
  rw [outermost, chain_of_no_parent none]
  rfl

theorem outermost_of_parent {p : ScopeId} (link : h.parent? s = some p) :
    h.outermost s = h.outermost p := by
  rw [outermost, outermost, chain_of_parent link, chain_eq]
  rfl

/-- The scopes of a chain have one outermost scope. -/
theorem outermost_of_mem_chain : t ∈ h.chain s → h.outermost t = h.outermost s := by
  induction s using Nat.strongRecOn with
  | ind s ih =>
    intro mem
    cases link : h.parent? s with
    | none =>
      rw [chain_of_no_parent link, List.mem_singleton] at mem
      rw [mem]
    | some p =>
      rw [chain_of_parent link] at mem
      rcases List.mem_cons.mp mem with rfl | outer
      · rfl
      · rw [outermost_of_parent link, ih p (parent?_lt link) outer]

theorem outermost_le (h : Heap α) (s : ScopeId) : h.outermost s ≤ s := by
  induction s using Nat.strongRecOn with
  | ind s ih =>
    cases link : h.parent? s with
    | none => rw [outermost_of_no_parent link]
    | some p =>
      rw [outermost_of_parent link]
      exact Nat.le_trans (ih p (parent?_lt link)) (Nat.le_of_lt (parent?_lt link))

/-- Nothing is around the outermost scope. -/
theorem parent?_outermost (h : Heap α) (s : ScopeId) : h.parent? (h.outermost s) = none := by
  induction s using Nat.strongRecOn with
  | ind s ih =>
    cases link : h.parent? s with
    | none => rw [outermost_of_no_parent link, link]
    | some p => rw [outermost_of_parent link, ih p (parent?_lt link)]

/-- Where a chain ends depends on the parents of old scopes alone. -/
theorem outermost_of_parents {h' : Heap β} (same : ∀ t, t < h.size → h'.parent? t = h.parent? t)
    (inside : s < h.size) : h'.outermost s = h.outermost s := by
  rw [outermost, outermost, chain_of_parents same inside]

/-- A lookup asks the scope itself and then the scope around it. -/
theorem resolve_eq (h : Heap α) (s : ScopeId) (n : String) :
    h.resolve s n = (h.resolveLocal s n).or (match h.parent? s with
      | none => none
      | some p => h.resolve p n) := by
  rw [resolve, chain_eq, List.findSome?_cons]
  cases h.resolveLocal s n <;> cases h.parent? s <;> rfl

/-- A lookup depends on the chain and on what its scopes bind the name to. -/
theorem resolve_congr {h' : Heap α} (chain : h'.chain s = h.chain s)
    (same : ∀ t ∈ h.chain s, h'.resolveLocal t n = h.resolveLocal t n) :
    h'.resolve s n = h.resolve s n := by
  rw [resolve, resolve, chain]
  generalize h.chain s = scopes at same
  induction scopes with
  | nil => rfl
  | cons t ts ih =>
    rw [List.findSome?_cons, List.findSome?_cons, same t List.mem_cons_self,
      ih fun u mem => same u (List.mem_cons_of_mem t mem)]

/-- A search for a name goes one scope further out, unless it ends here. -/
theorem owner?_eq (h : Heap α) (s : ScopeId) (n : String) :
    h.owner? s n = if h.binds s n then some s else match h.parent? s with
      | none => none
      | some p => h.owner? p n := by
  rw [owner?, chain_eq, List.find?_cons]
  cases h.binds s n <;> cases h.parent? s <;> rfl

/-- The owner depends on the chain and on which of its scopes bind the name. -/
theorem owner?_congr {h' : Heap α} (chain : h'.chain s = h.chain s)
    (same : ∀ t ∈ h.chain s, h'.binds t n = h.binds t n) : h'.owner? s n = h.owner? s n := by
  rw [owner?, owner?, chain]
  exact List.find?_congr same

/-- What a lookup finds is bound by the scope that owns the name. -/
theorem resolve_eq_owner? (h : Heap α) (s : ScopeId) (n : String) :
    h.resolve s n = (h.owner? s n).bind fun t => h.resolveLocal t n := by
  induction s using Nat.strongRecOn with
  | ind s ih =>
    rw [resolve_eq, owner?_eq]
    cases bound : h.binds s n with
    | true =>
      obtain ⟨v, hv⟩ := Option.isSome_iff_exists.mp (binds_iff_isSome.mp bound)
      simp [hv]
    | false =>
      rw [resolveLocal_eq_none_of_not_binds bound]
      cases hp : h.parent? s with
      | none => rfl
      | some p => simpa using ih p (parent?_lt hp)

theorem binds_of_owner? (found : h.owner? s n = some t) : h.binds t n = true := by
  have := List.find?_some found
  exact this

/-- Outward along a chain, to the scope that owns a name. -/
@[elab_as_elim]
theorem owner?_induct {motive : ScopeId → Prop} (found : h.owner? s n = some t)
    (here : h.binds t n = true → motive t)
    (outward : ∀ s p, h.parent? s = some p → n ∉ (h.bindings s).names →
      h.owner? p n = some t → motive p → motive s) : motive s := by
  induction s using Nat.strongRecOn with
  | ind s ih =>
    rw [owner?_eq] at found
    split at found
    case isTrue bound =>
      obtain rfl := Option.some.inj found
      exact here bound
    case isFalse unbound =>
      cases link : h.parent? s with
      | none =>
        rw [link] at found
        cases found
      | some p =>
        rw [link] at found
        exact outward s p link (mt binds_iff.mpr unbound) found (ih p (parent?_lt link) found)

theorem owner?_isSome_iff : (h.owner? s n).isSome ↔ (h.resolve s n).isSome := by
  rw [resolve_eq_owner?]
  cases found : h.owner? s n with
  | none => simp
  | some t =>
    have := binds_iff_isSome.mp (binds_of_owner? found)
    simpa using this

/-- What is found is bound in a scope of the chain. -/
theorem exists_resolveLocal_of_resolve {v : α} (found : h.resolve s n = some v) :
    ∃ t ∈ h.chain s, h.resolveLocal t n = some v :=
  List.exists_of_findSome?_eq_some found

/-! ## New scopes -/

@[simp] theorem root_fst (h : Heap α) (b : Bindings α) : (h.root b).1 = h.size := rfl

@[simp] theorem size_root (h : Heap α) (b : Bindings α) : (h.root b).2.size = h.size + 1 :=
  size_push h ⟨none, b⟩ (by simp)

/-- A new scope inside one that exists. -/
theorem child_eq_push (inside : s < h.size) (b : Bindings α) :
    h.child s b = (h.size, h.push ⟨some s, b⟩ fun _ same => Option.some.inj same ▸ inside) :=
  dif_pos inside

/-- Inside a scope that does not exist, a new scope is one without a parent. -/
theorem child_eq_root (outside : ¬s < h.size) (b : Bindings α) : h.child s b = h.root b :=
  dif_neg outside

@[simp] theorem child_fst (h : Heap α) (s : ScopeId) (b : Bindings α) :
    (h.child s b).1 = h.size := by
  by_cases inside : s < h.size
  · rw [child_eq_push inside]
  · rw [child_eq_root inside, root_fst]

@[simp] theorem size_child (h : Heap α) (s : ScopeId) (b : Bindings α) :
    (h.child s b).2.size = h.size + 1 := by
  by_cases inside : s < h.size
  · rw [child_eq_push inside, size_push]
  · rw [child_eq_root inside, size_root]

theorem lt_size_root (h : Heap α) (b : Bindings α) : h.size < (h.root b).2.size := by
  rw [size_root]
  exact Nat.lt_succ_self _

theorem lt_size_child (h : Heap α) (s : ScopeId) (b : Bindings α) :
    h.size < (h.child s b).2.size := by
  rw [size_child]
  exact Nat.lt_succ_self _

theorem parent?_push_self (h : Heap α) (f : Frame α) (old) :
    (h.push f old).parent? h.size = f.parent := by
  simp [parent?, push, size]

theorem bindings_push_self (h : Heap α) (f : Frame α) (old) :
    (h.push f old).bindings h.size = f.bindings := by
  simp [bindings, push, size]

theorem parent?_child_self (inside : s < h.size) (b : Bindings α) :
    (h.child s b).2.parent? h.size = some s := by
  rw [child_eq_push inside, parent?_push_self]

@[simp] theorem bindings_child_self (h : Heap α) (s : ScopeId) (b : Bindings α) :
    (h.child s b).2.bindings h.size = b := by
  by_cases inside : s < h.size
  · rw [child_eq_push inside, bindings_push_self]
  · rw [child_eq_root inside, root, bindings_push_self]

@[simp] theorem parent?_root_self (h : Heap α) (b : Bindings α) :
    (h.root b).2.parent? h.size = none := by
  rw [root, parent?_push_self]

@[simp] theorem bindings_root_self (h : Heap α) (b : Bindings α) :
    (h.root b).2.bindings h.size = b := by
  rw [root, bindings_push_self]

theorem parent?_child_of_lt (s : ScopeId) (b : Bindings α) (old : t < h.size) :
    (h.child s b).2.parent? t = h.parent? t := by
  by_cases inside : s < h.size
  · rw [child_eq_push inside, parent?_push_of_lt h _ _ old]
  · rw [child_eq_root inside, root, parent?_push_of_lt h _ _ old]

theorem bindings_child_of_lt (s : ScopeId) (b : Bindings α) (old : t < h.size) :
    (h.child s b).2.bindings t = h.bindings t := by
  by_cases inside : s < h.size
  · rw [child_eq_push inside, bindings_push_of_lt h _ _ old]
  · rw [child_eq_root inside, root, bindings_push_of_lt h _ _ old]

/-- A new scope has the outermost scope of the scope that it is in. -/
theorem outermost_child (inside : s < h.size) (b : Bindings α) :
    (h.child s b).2.outermost h.size = h.outermost s := by
  rw [outermost_of_parent (parent?_child_self inside b),
    outermost_of_parents (fun _ old => parent?_child_of_lt s b old) inside]

/-- A lookup in a new scope asks the scope and then what is around it. -/
theorem resolve_child_self (inside : s < h.size) (b : Bindings α) (n : String) :
    (h.child s b).2.resolve h.size n = (b.find? n).or (h.resolve s n) := by
  have chain : (h.child s b).2.chain s = h.chain s :=
    chain_of_parents (fun t old => parent?_child_of_lt s b old) inside
  have around : (h.child s b).2.resolve s n = h.resolve s n :=
    resolve_congr chain fun t mem => by
      have old : t < h.size := Nat.lt_of_le_of_lt (le_of_mem_chain mem) inside
      rw [resolveLocal, bindings_child_of_lt s b old, resolveLocal]
  rw [resolve_eq, parent?_child_self inside, resolveLocal, bindings_child_self]
  exact congrArg _ around

/-- A new scope owns its own names. The others have the owners that they have around it. -/
theorem owner?_child_self (inside : s < h.size) (b : Bindings α) (n : String) :
    (h.child s b).2.owner? h.size n = if b.contains n then some h.size else h.owner? s n := by
  have chain : (h.child s b).2.chain s = h.chain s :=
    chain_of_parents (fun t old => parent?_child_of_lt s b old) inside
  have around : (h.child s b).2.owner? s n = h.owner? s n :=
    owner?_congr chain fun t mem => by
      have old : t < h.size := Nat.lt_of_le_of_lt (le_of_mem_chain mem) inside
      rw [binds, bindings_child_of_lt s b old, binds]
  rw [owner?_eq, parent?_child_self inside, binds, bindings_child_self]
  exact congrArg _ around

theorem parent?_root_of_lt (b : Bindings α) (old : t < h.size) :
    (h.root b).2.parent? t = h.parent? t := parent?_push_of_lt h ⟨none, b⟩ (by simp) old

theorem bindings_root_of_lt (b : Bindings α) (old : t < h.size) :
    (h.root b).2.bindings t = h.bindings t :=
  bindings_push_of_lt h ⟨none, b⟩ (by simp) old

/-- A new scope without names is not seen, since a scope that does not exist binds no name
either. -/
theorem bindings_root_empty (h : Heap α) (s : ScopeId) :
    (h.root .empty).2.bindings s = h.bindings s := by
  rcases Nat.lt_trichotomy s h.size with old | rfl | out
  · exact bindings_root_of_lt .empty old
  · rw [bindings_root_self, bindings_eq_empty_of_ge (Nat.le_refl _)]
  · rw [bindings_eq_empty_of_ge (Nat.le_of_lt out), bindings_eq_empty_of_ge]
    rw [size_root]
    exact out

/-! ## New names and new values -/

@[simp] theorem size_put (h : Heap α) (s : ScopeId) (name : String) (v : α) :
    (h.put s name v).size = h.size := size_updateBindings ..

@[simp] theorem parent?_put (h : Heap α) (s t : ScopeId) (name : String) (v : α) :
    (h.put s name v).parent? t = h.parent? t := parent?_updateBindings ..

@[simp] theorem chain_put (h : Heap α) (s t : ScopeId) (name : String) (v : α) :
    (h.put s name v).chain t = h.chain t := chain_updateBindings ..

theorem bindings_put_self (inside : s < h.size) (name : String) (v : α) :
    (h.put s name v).bindings s = (h.bindings s).insert name v :=
  bindings_updateBindings_self inside _

theorem bindings_put_of_ne (ne : s ≠ t) (name : String) (v : α) :
    (h.put s name v).bindings t = h.bindings t := bindings_updateBindings_of_ne h ne _

/-- A binding is found under its name in its scope, and everything else is as before. -/
theorem resolveLocal_put (inside : s < h.size) (name : String) (v : α) (t : ScopeId)
    (n : String) : (h.put s name v).resolveLocal t n =
      if t = s ∧ n = name then some v else h.resolveLocal t n := by
  by_cases same : t = s
  · subst same
    rw [resolveLocal, bindings_put_self inside, Bindings.find?_insert]
    by_cases hn : n = name <;> simp [hn, resolveLocal]
  · rw [resolveLocal, bindings_put_of_ne (Ne.symm same), if_neg (fun c => same c.1)]
    rfl

/-- A new name or a new value changes the owner of no other name. -/
theorem owner?_put_of_ne {name n : String} (ne : n ≠ name) (s t : ScopeId) (v : α) :
    (h.put s name v).owner? t n = h.owner? t n := by
  refine owner?_congr (chain_put ..) fun u _ => ?_
  by_cases here : s = u
  · subst here
    by_cases inside : s < h.size
    · rw [Bool.eq_iff_iff, binds_iff, binds_iff, bindings_put_self inside,
        Bindings.mem_names_insert]
      simp [ne]
    · rw [binds, binds, bindings_eq_empty_of_ge (Nat.le_of_not_lt inside),
        bindings_eq_empty_of_ge (by rw [size_put]; exact Nat.le_of_not_lt inside)]
  · rw [binds, bindings_put_of_ne here, binds]

theorem mem_names_put (inside : s < h.size) (name : String) (v : α) (t : ScopeId) (n : String) :
    n ∈ ((h.put s name v).bindings t).names ↔ (t = s ∧ n = name) ∨ n ∈ (h.bindings t).names := by
  by_cases same : t = s
  · subst same
    rw [bindings_put_self inside, Bindings.mem_names_insert]
    simp
  · rw [bindings_put_of_ne (Ne.symm same)]
    simp [same]

/-! ## Everything that is bound -/

/-- Everything that the scopes bind is as `P` says. -/
def Holds (P : α → Prop) (h : Heap α) : Prop := ∀ s n v, h.resolveLocal s n = some v → P v

namespace Holds

variable {P Q : α → Prop} {b : Bindings α} {v : α}

theorem imp (holds : h.Holds P) (sub : ∀ v, P v → Q v) : h.Holds Q := fun s n v found =>
  sub v (holds s n v found)

theorem child (holds : h.Holds P) (s : ScopeId) (bound : ∀ n v, b.find? n = some v → P v) :
    (h.child s b).2.Holds P := by
  intro t n v found
  have below := lt_size_of_resolveLocal found
  rw [size_child] at below
  rcases Nat.lt_or_ge t h.size with old | new
  · rw [resolveLocal, bindings_child_of_lt s b old] at found
    exact holds t n v found
  · obtain rfl : t = h.size := Nat.le_antisymm (Nat.le_of_lt_succ below) new
    rw [resolveLocal, bindings_child_self] at found
    exact bound n v found

theorem root (holds : h.Holds P) : (h.root .empty).2.Holds P := by
  intro t n v found
  rw [resolveLocal, bindings_root_empty] at found
  exact holds t n v found

theorem put (holds : h.Holds P) (value : P v) : (h.put s n v).Holds P := by
  intro t k u found
  by_cases inside : s < h.size
  · rw [resolveLocal_put inside] at found
    split at found
    · rw [← Option.some.inj found]
      exact value
    · exact holds t k u found
  · by_cases here : s = t
    · have below := lt_size_of_resolveLocal found
      rw [size_put, ← here] at below
      exact absurd below inside
    · rw [resolveLocal, bindings_put_of_ne here] at found
      exact holds t k u found

end Holds

end Heap

end GradualScript
