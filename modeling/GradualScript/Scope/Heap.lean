/-
# GradualScript.Scope.Heap -- shared scopes that refer to their parents

Scopes are shared: a closure keeps the scope it was made in, an object keeps the scope of its
members, and a change made through one of them is seen through all. A `Heap` holds every scope
that was ever made, and a scope is its position in the heap, so two handles are the same scope
exactly when they are the same number.

A frame is made after its parent, which is part of the type (`parent_lt`). A walk from a scope to
its root therefore ends, and `chain` lists it: innermost first. Everything that looks along
parents is a list operation on `chain`.
-/

import GradualScript.Scope.Bindings

namespace GradualScript

universe u

/-- A scope, named by the position of its frame in the heap. -/
abbrev ScopeId := Nat

/-- One scope: where its lookups fall back to, and what it binds itself. -/
structure Frame (α : Type u) where
  parent : Option ScopeId
  bindings : Bindings α

instance {α : Type u} : Inhabited (Frame α) := ⟨⟨none, .empty⟩⟩

/-- All scopes made so far, oldest first. -/
structure Heap (α : Type u) where
  frames : Array (Frame α)
  parent_lt : ∀ (s : Nat) (f : Frame α), frames[s]? = some f →
    ∀ p : Nat, f.parent = some p → p < s

/-- Why a scope could not be changed. -/
inductive ScopeError where
  | alreadyDefined (name : String)
  | undefined (name : String)
deriving DecidableEq, Repr

def ScopeError.message : ScopeError → String
  | .alreadyDefined name => "`" ++ name ++ "` is already defined in this scope"
  | .undefined name => "`" ++ name ++ "` is not defined"

namespace Heap

variable {α : Type u}

def empty : Heap α := ⟨#[], by simp⟩

instance : Inhabited (Heap α) := ⟨empty⟩

def size (h : Heap α) : Nat := h.frames.size

/-- The scope that lookups in `s` fall back to. -/
def parent? (h : Heap α) (s : ScopeId) : Option ScopeId := h.frames[s]?.bind Frame.parent

/-- What `s` binds itself. -/
def bindings (h : Heap α) (s : ScopeId) : Bindings α :=
  match h.frames[s]? with
  | some f => f.bindings
  | none => .empty

/-- Looks `name` up in `s` alone. -/
def resolveLocal (h : Heap α) (s : ScopeId) (name : String) : Option α :=
  (h.bindings s).find? name

/-- Whether `s` itself binds `name`. -/
def binds (h : Heap α) (s : ScopeId) (name : String) : Bool := (h.bindings s).contains name

theorem parent?_lt {h : Heap α} {s p : Nat} (hp : h.parent? s = some p) : p < s := by
  obtain ⟨f, hf, hfp⟩ := Option.bind_eq_some_iff.mp hp
  exact h.parent_lt s f hf p hfp

/-! ## Walking outward -/

/-- The first `n` scopes from `s` outward. -/
def walk (h : Heap α) : Nat → ScopeId → List ScopeId
  | 0, _ => []
  | n + 1, s =>
    s :: match h.parent? s with
      | none => []
      | some p => walk h n p

/-- The scopes that a lookup in `s` visits, `s` first and its root last. -/
def chain (h : Heap α) (s : ScopeId) : List ScopeId := h.walk (s + 1) s

private theorem walk_eq_walk (h : Heap α) :
    ∀ {m n s : Nat}, s < m → s < n → h.walk m s = h.walk n s
  | 0, _, _, hm, _ => absurd hm (Nat.not_lt_zero _)
  | _, 0, _, _, hn => absurd hn (Nat.not_lt_zero _)
  | m + 1, n + 1, s, hm, hn => by
    simp only [walk]
    cases hp : h.parent? s with
    | none => rfl
    | some p =>
      have hps := parent?_lt hp
      simp only [walk_eq_walk h (m := m) (n := n) (s := p) (by omega) (by omega)]

/-- A scope's chain is the scope itself and then the chain of its parent. -/
theorem chain_eq (h : Heap α) (s : ScopeId) :
    h.chain s = s :: match h.parent? s with
      | none => []
      | some p => h.chain p := by
  simp only [chain, walk]
  cases hp : h.parent? s with
  | none => rfl
  | some p =>
    have hps := parent?_lt hp
    simp only
    rw [walk_eq_walk h (m := s) (n := p + 1) (s := p) hps (by omega)]
    rfl

/-- Number of scopes from `s` to its root, both counted. -/
def depth (h : Heap α) (s : ScopeId) : Nat := (h.chain s).length

/-- Looks `name` up in `s`, then in each scope outward. -/
def resolve (h : Heap α) (s : ScopeId) (name : String) : Option α :=
  (h.chain s).findSome? fun t => h.resolveLocal t name

/-- The innermost scope, from `s` outward, that binds `name`. -/
def owner? (h : Heap α) (s : ScopeId) (name : String) : Option ScopeId :=
  (h.chain s).find? fun t => h.binds t name

/-- All bindings visible in `s`. An inner binding replaces the one that it shadows and keeps its
place, so the outermost scope's names come first. -/
def collect (h : Heap α) (s : ScopeId) : Bindings α :=
  (h.chain s).reverse.foldl (fun b t => b.merge (h.bindings t)) .empty

/-! ## Growing and changing -/

/-- Adds a frame whose parent, if it has one, is in the heap already. -/
def push (h : Heap α) (f : Frame α) (old : ∀ p : Nat, f.parent = some p → p < h.frames.size) :
    Heap α where
  frames := h.frames.push f
  parent_lt := by
    intro s g hg p hp
    rw [Array.getElem?_push] at hg
    by_cases hs : s = h.frames.size
    · subst hs
      simp only [if_true, Option.some.injEq] at hg
      subst hg
      exact old p hp
    · rw [if_neg hs] at hg
      exact h.parent_lt s g hg p hp

/-- Changes what `s` binds. A scope that is not in the heap stays out of it. -/
def updateBindings (h : Heap α) (s : ScopeId) (change : Bindings α → Bindings α) : Heap α where
  frames := h.frames.modify s fun f => { f with bindings := change f.bindings }
  parent_lt := by
    intro t g hg p hp
    rw [Array.getElem?_modify] at hg
    by_cases hts : s = t
    · subst hts
      simp only [if_true, Option.map_eq_some_iff] at hg
      obtain ⟨f, hf, rfl⟩ := hg
      exact h.parent_lt s f hf p hp
    · rw [if_neg hts] at hg
      exact h.parent_lt t g hg p hp

/-- A new scope without a parent, holding `bindings`. -/
@[inline] def root (h : Heap α) (bindings : Bindings α) : ScopeId × Heap α :=
  (h.frames.size, h.push ⟨none, bindings⟩ (by simp))

/-- A new scope inside `s`, holding `bindings`. -/
@[inline] def child (h : Heap α) (s : ScopeId) (bindings : Bindings α) : ScopeId × Heap α :=
  if inside : s < h.frames.size then
    (h.frames.size, h.push ⟨some s, bindings⟩ (by simpa using inside))
  else h.root bindings

/-- Binds `name` in `s` itself: in its place if `s` binds it already, at the end if it does not. -/
@[inline] def put (h : Heap α) (s : ScopeId) (name : String) (value : α) : Heap α :=
  h.updateBindings s fun b => b.insert name value

/-- Binds a name that `s` does not bind yet. A binding of an outer scope may be shadowed. -/
@[inline] def define (h : Heap α) (s : ScopeId) (name : String) (value : α) :
    Except ScopeError (Heap α) :=
  if h.binds s name then .error (.alreadyDefined name) else .ok (h.put s name value)

/-- Replaces the binding of `name` that a lookup in `s` finds. -/
@[inline] def assign (h : Heap α) (s : ScopeId) (name : String) (value : α) :
    Except ScopeError (Heap α) :=
  match h.owner? s name with
  | none => .error (.undefined name)
  | some t => .ok (h.put t name value)

/-! ## What growing and changing leave alone -/

@[simp] theorem size_push (h : Heap α) (f : Frame α) (old) : (h.push f old).size = h.size + 1 := by
  simp [size, push]

@[simp] theorem size_updateBindings (h : Heap α) (s : ScopeId)
    (change : Bindings α → Bindings α) : (h.updateBindings s change).size = h.size := by
  simp [size, updateBindings]

@[simp] theorem parent?_updateBindings (h : Heap α) (s t : ScopeId)
    (change : Bindings α → Bindings α) : (h.updateBindings s change).parent? t = h.parent? t := by
  simp only [parent?, updateBindings, Array.getElem?_modify]
  by_cases hst : s = t
  · subst hst
    cases h.frames[s]? <;> simp
  · simp [hst]

/-- Changing bindings changes no chain. -/
@[simp] theorem chain_updateBindings (h : Heap α) (s : ScopeId)
    (change : Bindings α → Bindings α) (t : ScopeId) :
    (h.updateBindings s change).chain t = h.chain t := by
  have same : ∀ n t, (h.updateBindings s change).walk n t = h.walk n t := by
    intro n
    induction n with
    | zero => intro t; rfl
    | succ n ih =>
      intro t
      simp only [walk, parent?_updateBindings]
      cases h.parent? t with
      | none => rfl
      | some p => simp [ih]
  exact same _ _

theorem bindings_updateBindings_self {h : Heap α} {s : ScopeId} (inside : s < h.size)
    (change : Bindings α → Bindings α) :
    (h.updateBindings s change).bindings s = change (h.bindings s) := by
  have hs : h.frames[s]? = some h.frames[s] := Array.getElem?_eq_getElem inside
  simp [bindings, updateBindings, Array.getElem?_modify, hs]

theorem bindings_updateBindings_of_ne (h : Heap α) {s t : ScopeId} (ne : s ≠ t)
    (change : Bindings α → Bindings α) :
    (h.updateBindings s change).bindings t = h.bindings t := by
  simp [bindings, updateBindings, Array.getElem?_modify, ne]

theorem parent?_push_of_lt (h : Heap α) (f : Frame α) (old) {s : ScopeId} (inside : s < h.size) :
    (h.push f old).parent? s = h.parent? s := by
  have hs : s ≠ h.frames.size := Nat.ne_of_lt inside
  simp [parent?, push, Array.getElem?_push, hs]

theorem bindings_push_of_lt (h : Heap α) (f : Frame α) (old) {s : ScopeId} (inside : s < h.size) :
    (h.push f old).bindings s = h.bindings s := by
  have hs : s ≠ h.frames.size := Nat.ne_of_lt inside
  simp [bindings, push, Array.getElem?_push, hs]

end Heap

end GradualScript
