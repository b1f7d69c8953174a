/-
# GradualScript.Proofs.Scope.Changes -- who sees a change of a scope

Scopes are shared. A change that is made through one handle is seen through every other handle from
which a lookup comes to the changed scope, and through no other. Which lookups these are is a
question to the chains alone: an assignment is seen by the scopes that have the owner of the name in
common with the writer, a definition by the scopes that come to the writer before any scope that
binds the name.

A history is a list of changes, made one after the other to scopes that start from none. The main
statement is about every history (`SharedScopes.changes_seen`). That a scope binds its names in the
order of their definition is a statement about the whole history too (`SharedScopes.names_after`):
one step adds the name that it defines, if it is not refused.
-/

import GradualScript.Proofs.Scope.Links

namespace GradualScript

universe u

variable {α : Type u}

/-! ## Changes of a heap -/

namespace Heap

variable {h h' : Heap α} {s t o : ScopeId} {n m : String} {v : α}

theorem define_of_binds (bound : h.binds s n = true) :
    h.define s n v = .error (.alreadyDefined n) := by
  rw [define, if_pos bound]

theorem define_of_not_binds (free : h.binds s n = false) : h.define s n v = .ok (h.put s n v) := by
  rw [define, free]
  rfl

theorem assign_of_no_owner (none : h.owner? s n = none) :
    h.assign s n v = .error (.undefined n) := by
  rw [assign, none]

theorem assign_of_owner (owner : h.owner? s n = some o) : h.assign s n v = .ok (h.put o n v) := by
  rw [assign, owner]

theorem parent?_put_eq (h : Heap α) (s : ScopeId) (n : String) (v : α) :
    (h.put s n v).parent? = h.parent? :=
  funext fun t => parent?_put h s t n v

/-- A new value for `n` is seen from where a lookup of `n` comes to `s`. -/
theorem resolve_put_of_reaches (inside : s < h.size) (reaches : h.Reaches h.parent? n s t) :
    (h.put s n v).resolve t n = some v := by
  have search' := searches_resolve (h.put s n v) n
  rw [parent?_put_eq] at search'
  exact search'.of_reaches inside (ends_parent? h t) reaches

theorem resolve_put_of_not_reaches (inside : s < h.size)
    (apart : ¬(m = n ∧ h.Reaches h.parent? n s t)) :
    (h.put s n v).resolve t m = h.resolve t m := by
  have search := searches_resolve h m
  have search' := searches_resolve (h.put s n v) m
  rw [parent?_put_eq] at search'
  exact search.of_apart inside search' (ends_parent? h t) apart

/-- Only scopes with the same owner of `n` see an assignment. -/
theorem resolve_put_owner (owner : h.owner? s n = some o) :
    (h.put o n v).resolve t m =
      if m = n ∧ h.owner? t n = some o then some v else h.resolve t m := by
  have bound := binds_of_owner? owner
  have inside := lt_size_of_binds bound
  have reaches_iff : h.owner? t n = some o ↔ h.Reaches h.parent? n o t := by
    rw [owner?_eq_some_iff]
    exact and_iff_left (binds_iff.mp bound)
  split
  case isTrue seen =>
    rw [seen.1]
    exact resolve_put_of_reaches inside (reaches_iff.mp seen.2)
  case isFalse unseen =>
    exact resolve_put_of_not_reaches inside fun both =>
      unseen ⟨both.1, reaches_iff.mpr both.2⟩

/-- A value for a name that is bound already binds no other name. -/
theorem names_put_of_binds (bound : h.binds s n = true) (t : ScopeId) :
    ((h.put s n v).bindings t).names = (h.bindings t).names := by
  by_cases here : s = t
  · subst here
    rw [bindings_put_self (lt_size_of_binds bound),
      Bindings.names_insert_of_mem v (binds_iff.mp bound)]
  · rw [bindings_put_of_ne here]

theorem names_put_of_not_binds (inside : s < h.size) (free : h.binds s n = false) (t : ScopeId) :
    ((h.put s n v).bindings t).names =
      (h.bindings t).names ++ if s = t then [n] else [] := by
  by_cases here : s = t
  · subst here
    rw [bindings_put_self inside,
      Bindings.names_insert_of_not_mem v (Bindings.not_mem_names_of_not_contains free), if_pos rfl]
  · rw [bindings_put_of_ne here, if_neg here, List.append_nil]

/-- A scope that is made without names binds what no scope bound before. -/
theorem bindings_push_empty (h : Heap α) (parent : Option ScopeId) (old) (t : ScopeId) :
    (h.push ⟨parent, .empty⟩ old).bindings t = h.bindings t := by
  rcases Nat.lt_trichotomy t h.size with before | rfl | beyond
  · exact bindings_push_of_lt h _ _ before
  · rw [bindings_push_self, bindings_eq_empty_of_ge (Nat.le_refl _)]
  · rw [bindings_eq_empty_of_ge (Nat.le_of_lt beyond), bindings_eq_empty_of_ge]
    rw [size_push]
    exact beyond

theorem bindings_child_empty (h : Heap α) (s t : ScopeId) :
    (h.child s .empty).2.bindings t = h.bindings t := by
  by_cases inside : s < h.size
  · rw [child_eq_push inside, bindings_push_empty]
  · rw [child_eq_root inside, root, bindings_push_empty]

end Heap

/-! ## Histories -/

/-- A change that a program makes to its scopes. It names a scope by a handle, and handles are
numbered as they are given out. -/
inductive ScopeChange (α : Type u) where
  | root
  | child (handle : Nat)
  /-- Another handle to the same scope. -/
  | clone (handle : Nat)
  | define (handle : Nat) (name : String) (value : α)
  | assign (handle : Nat) (name : String) (value : α)

/-- Scopes, and the handles to them that have been given out. -/
structure SharedScopes (α : Type u) where
  heap : Heap α
  handles : List ScopeId

namespace SharedScopes

variable {w : SharedScopes α} {c : ScopeChange α} {i : Nat} {s : ScopeId} {n : String} {v : α}

/-- No scopes yet. -/
def empty : SharedScopes α := ⟨.empty, []⟩

/-- Goes on with the changed heap, or leaves everything as it is and says why. -/
def settle (w : SharedScopes α) : Except ScopeError (Heap α) → Option ScopeError × SharedScopes α
  | .ok h => (none, { w with heap := h })
  | .error e => (some e, w)

/-- Makes a change. A program has no handle but those that it has been given. -/
def step (w : SharedScopes α) : ScopeChange α → Option ScopeError × SharedScopes α
  | .root =>
    let (s, h) := w.heap.root .empty
    (none, ⟨h, w.handles ++ [s]⟩)
  | .child i =>
    match w.handles[i]? with
    | some s =>
      let (t, h) := w.heap.child s .empty
      (none, ⟨h, w.handles ++ [t]⟩)
    | none => (none, w)
  | .clone i =>
    match w.handles[i]? with
    | some s => (none, { w with handles := w.handles ++ [s] })
    | none => (none, w)
  | .define i name value =>
    match w.handles[i]? with
    | some s => w.settle (w.heap.define s name value)
    | none => (none, w)
  | .assign i name value =>
    match w.handles[i]? with
    | some s => w.settle (w.heap.assign s name value)
    | none => (none, w)

/-- The scopes after a history. -/
def after (w : SharedScopes α) : List (ScopeChange α) → SharedScopes α
  | [] => w
  | c :: rest => after (w.step c).2 rest

/-- The name that a change defines, and where, unless the change is refused. -/
def definition? (w : SharedScopes α) (c : ScopeChange α) : Option (ScopeId × String) :=
  match c, (w.step c).1 with
  | .define i name _, none => w.handles[i]?.map fun s => (s, name)
  | _, _ => none

/-- The definitions of a history, in their order. -/
def definitions (w : SharedScopes α) : List (ScopeChange α) → List (ScopeId × String)
  | [] => []
  | c :: rest => (w.definition? c).toList ++ definitions (w.step c).2 rest

/-- The names that these definitions give to a scope. -/
def namesOf (s : ScopeId) (definitions : List (ScopeId × String)) : List String :=
  (definitions.filter fun d => d.1 = s).map Prod.snd

/-- Handles are to scopes that exist. -/
def Formed (w : SharedScopes α) : Prop := ∀ s ∈ w.handles, s < w.heap.size

/-! ### What one change does -/

theorem step_define (writer : w.handles[i]? = some s) :
    w.step (.define i n v) = w.settle (w.heap.define s n v) := by
  simp only [step, writer]

theorem step_assign (writer : w.handles[i]? = some s) :
    w.step (.assign i n v) = w.settle (w.heap.assign s n v) := by
  simp only [step, writer]

theorem Formed.of_handle (formed : w.Formed) (handle : w.handles[i]? = some s) :
    s < w.heap.size :=
  formed s (List.mem_of_getElem? handle)

theorem formed_empty : (empty : SharedScopes α).Formed := by
  intro s mem
  cases mem

theorem Formed.append (formed : w.Formed) {h : Heap α} (grows : w.heap.size ≤ h.size)
    (new : s < h.size) : Formed ⟨h, w.handles ++ [s]⟩ := by
  intro t mem
  rcases List.mem_append.mp mem with old | added
  · exact Nat.lt_of_lt_of_le (formed t old) grows
  · rw [List.mem_singleton.mp added]
    exact new

theorem Formed.put (formed : w.Formed) (s : ScopeId) (n : String) (v : α) :
    Formed { w with heap := w.heap.put s n v } := by
  intro t mem
  show t < (w.heap.put s n v).size
  rw [Heap.size_put]
  exact formed t mem

/-- A change leads to a heap that is not smaller, and only to handles of its scopes. -/
theorem Formed.step (formed : w.Formed) (c : ScopeChange α) : (w.step c).2.Formed := by
  cases c with
  | root =>
    refine formed.append ?_ (Heap.lt_size_root w.heap .empty)
    exact Nat.le_of_lt (Heap.lt_size_root w.heap .empty)
  | child i =>
    cases handle : w.handles[i]? with
    | none => simpa only [SharedScopes.step, handle] using formed
    | some s =>
      simp only [SharedScopes.step, handle]
      refine formed.append (Nat.le_of_lt (Heap.lt_size_child w.heap s .empty)) ?_
      rw [Heap.child_fst]
      exact Heap.lt_size_child w.heap s .empty
  | clone i =>
    cases handle : w.handles[i]? with
    | none => simpa only [SharedScopes.step, handle] using formed
    | some s =>
      simp only [SharedScopes.step, handle]
      exact formed.append (Nat.le_refl _) (formed.of_handle handle)
  | define i n v =>
    cases handle : w.handles[i]? with
    | none => simpa only [SharedScopes.step, handle] using formed
    | some s =>
      rw [step_define handle]
      cases bound : w.heap.binds s n with
      | true =>
        rw [Heap.define_of_binds bound]
        exact formed
      | false =>
        rw [Heap.define_of_not_binds bound]
        exact formed.put s n v
  | assign i n v =>
    cases handle : w.handles[i]? with
    | none => simpa only [SharedScopes.step, handle] using formed
    | some s =>
      rw [step_assign handle]
      cases owner : w.heap.owner? s n with
      | none =>
        rw [Heap.assign_of_no_owner owner]
        exact formed
      | some o =>
        rw [Heap.assign_of_owner owner]
        exact formed.put o n v

/-- Handles stay handles to scopes, whatever the history. -/
theorem Formed.after : ∀ {w : SharedScopes α}, w.Formed → ∀ history, (w.after history).Formed
  | _, formed, [] => formed
  | _, formed, c :: rest => (formed.step c).after rest

/-- One change adds the name that it defines to the scope that it defines it in. -/
theorem names_step (formed : w.Formed) (c : ScopeChange α) (u : ScopeId) :
    ((w.step c).2.heap.bindings u).names =
      (w.heap.bindings u).names ++ namesOf u (w.definition? c).toList := by
  cases c with
  | root =>
    show ((w.heap.root .empty).2.bindings u).names = _ ++ namesOf u []
    rw [Heap.root, Heap.bindings_push_empty, namesOf, List.filter_nil, List.map_nil,
      List.append_nil]
  | child i =>
    cases handle : w.handles[i]? with
    | none => simp [step, handle, definition?, namesOf]
    | some s =>
      simp only [step, handle, definition?, Option.toList_none, namesOf, List.filter_nil,
        List.map_nil, List.append_nil, Heap.bindings_child_empty]
  | clone i => cases handle : w.handles[i]? <;> simp [step, handle, definition?, namesOf]
  | define i n v =>
    cases handle : w.handles[i]? with
    | none => simp [step, handle, definition?, namesOf]
    | some s =>
      simp only [definition?, step_define handle]
      cases bound : w.heap.binds s n with
      | true => simp [Heap.define_of_binds bound, settle, namesOf]
      | false =>
        rw [Heap.define_of_not_binds bound, settle]
        simp only [handle, Option.map_some, Option.toList_some]
        rw [Heap.names_put_of_not_binds (formed.of_handle handle) bound]
        by_cases here : s = u <;> simp [namesOf, here]
  | assign i n v =>
    cases handle : w.handles[i]? with
    | none => simp [step, handle, definition?, namesOf]
    | some s =>
      simp only [definition?, step_assign handle, Option.toList_none, namesOf, List.filter_nil,
        List.map_nil, List.append_nil]
      cases owner : w.heap.owner? s n with
      | none => rw [Heap.assign_of_no_owner owner, settle]
      | some o =>
        rw [Heap.assign_of_owner owner, settle]
        exact Heap.names_put_of_binds (Heap.binds_of_owner? owner) u

/-- A history adds to each scope the names that it defines there, in their order. -/
theorem names_after : ∀ {w : SharedScopes α}, w.Formed → ∀ (history : List (ScopeChange α)) u,
    ((w.after history).heap.bindings u).names =
      (w.heap.bindings u).names ++ namesOf u (w.definitions history)
  | w, _, [], u => by simp [after, definitions, namesOf]
  | w, formed, c :: rest, u => by
    rw [after, names_after (formed.step c) rest u, names_step formed c u, List.append_assoc,
      definitions]
    simp [namesOf]

/-! ## Who sees a change -/

/-- After every history, for a handle to a scope `s`, any scope `t`, and any names `n` and `m`:

An assignment of `n` through the handle is refused exactly if no scope on the chain of `s` binds
`n`, and then changes nothing. Otherwise a lookup of `m` in `t` comes to the new value if `m` is `n`
and both scopes have the same owner of `n`; every other lookup comes to what it came to.

A definition of `n` is refused exactly if `s` itself binds `n`, and then changes nothing. Otherwise
a lookup of `m` in `t` comes to the new value if `m` is `n`, `s` is on the chain of `t`, and no
scope before it binds `n`; every other lookup comes to what it came to.

No chain visits a scope twice, and no scope binds a name twice. A scope binds the names that the
history has defined in it, in the order of their definitions. -/
theorem changes_seen (history : List (ScopeChange α)) {i : Nat} {s : ScopeId}
    (writer : (empty.after history).handles[i]? = some s) (t : ScopeId) (n m : String) (v : α) :
    let w := empty.after history
    let assigned := w.step (.assign i n v)
    let defined := w.step (.define i n v)
    (w.heap.owner? s n = none → assigned = (some (.undefined n), w)) ∧
    ((w.heap.owner? s n).isSome → assigned.1 = none ∧
      assigned.2.heap.resolve t m =
        if m = n ∧ w.heap.owner? t n = w.heap.owner? s n then some v else w.heap.resolve t m) ∧
    (w.heap.binds s n = true → defined = (some (.alreadyDefined n), w)) ∧
    (w.heap.binds s n = false → defined.1 = none ∧
      ((m = n ∧ ∃ inner outer, w.heap.chain t = inner ++ s :: outer ∧
          ∀ u ∈ inner, n ∉ (w.heap.bindings u).names) →
        defined.2.heap.resolve t m = some v) ∧
      (¬(m = n ∧ ∃ inner outer, w.heap.chain t = inner ++ s :: outer ∧
          ∀ u ∈ inner, n ∉ (w.heap.bindings u).names) →
        defined.2.heap.resolve t m = w.heap.resolve t m)) ∧
    (w.heap.chain t).Nodup ∧
    ∀ u, (w.heap.bindings u).names.Nodup ∧
      (w.heap.bindings u).names = namesOf u (empty.definitions history) := by
  intro w assigned defined
  have formed : w.Formed := formed_empty.after history
  have inside : s < w.heap.size := formed.of_handle writer
  have assigned_eq : assigned = w.settle (w.heap.assign s n v) := step_assign writer
  have defined_eq : defined = w.settle (w.heap.define s n v) := step_define writer
  -- Histories come in only through `formed` and the names of a scope: the rest holds of any heap.
  refine ⟨fun none => ?_, fun owned => ?_, fun bound => ?_, fun free => ⟨?_, ?_, ?_⟩,
    w.heap.nodup_chain t, fun u => ⟨(w.heap.bindings u).names_nodup, ?_⟩⟩
  · rw [assigned_eq, Heap.assign_of_no_owner none, settle]
  · obtain ⟨o, owner⟩ := Option.isSome_iff_exists.mp owned
    rw [assigned_eq, Heap.assign_of_owner owner, settle, owner]
    exact ⟨rfl, Heap.resolve_put_owner owner⟩
  · rw [defined_eq, Heap.define_of_binds bound, settle]
  · rw [defined_eq, Heap.define_of_not_binds free, settle]
  · rintro ⟨rfl, reached⟩
    rw [defined_eq, Heap.define_of_not_binds free, settle]
    exact Heap.resolve_put_of_reaches inside (Heap.reaches_parent?_iff.mpr reached)
  · intro apart
    rw [defined_eq, Heap.define_of_not_binds free, settle]
    rw [← Heap.reaches_parent?_iff] at apart
    exact Heap.resolve_put_of_not_reaches inside apart
  · rw [names_after formed_empty history u]
    simp [empty, Heap.bindings, Heap.empty, Bindings.names_empty]

/-- A root that binds `x`; inside it a scope with two handles, through the second of which `x` is
defined there too; and inside that a scope that binds `y`. -/
def sharedHistory : List (ScopeChange Int) :=
  [.root, .define 0 "x" 1, .child 0, .clone 1, .define 2 "x" 2, .child 2, .define 3 "y" 3]

/-- In the innermost scope an assignment of `x` is seen from the scope around it, and not from the
root; a definition of `x` is seen there only. -/
theorem changes_seen_sharedHistory :
    ∃ w, w = empty.after sharedHistory ∧ w.handles = [0, 1, 1, 2] ∧
      (w.step (.assign 3 "x" 5)).2.heap.resolve 1 "x" = some 5 ∧
      (w.step (.assign 3 "x" 5)).2.heap.resolve 0 "x" = some 1 ∧
      (w.step (.define 3 "x" 5)).2.heap.resolve 2 "x" = some 5 ∧
      (w.step (.define 3 "x" 5)).2.heap.resolve 1 "x" = some 2 ∧
      (w.heap.bindings 1).names = ["x"] := by
  have seen (t : ScopeId) := changes_seen sharedHistory
    (show (empty.after sharedHistory).handles[3]? = some 2 by decide) t "x" "x" 5
  refine ⟨_, rfl, by decide, ?_, ?_, ?_, ?_, ?_⟩
  · exact ((seen 1).2.1 (by decide)).2.trans (by decide)
  · exact ((seen 0).2.1 (by decide)).2.trans (by decide)
  · exact ((seen 2).2.2.2.1 (by decide)).2.1 ⟨rfl, [], [1, 0], by decide, by simp⟩
  · refine (((seen 1).2.2.2.1 (by decide)).2.2 ?_).trans (by decide)
    rintro ⟨-, inner, outer, chain, -⟩
    have mem : 2 ∈ (empty.after sharedHistory).heap.chain 1 := by
      rw [chain]
      exact List.mem_append_right _ List.mem_cons_self
    revert mem
    decide
  · exact ((seen 1).2.2.2.2.2 1).2.trans (by decide)

end SharedScopes

end GradualScript
