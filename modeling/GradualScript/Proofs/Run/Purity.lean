/-
# GradualScript.Proofs.Run.Purity -- expressions without calls

An expression writes lines and changes scopes only by calling something. Without calls it asks its
operators and the heap, and it makes objects. Each object expression adds a scope for the members,
and nothing else gets hold of this scope before it is complete. So when the evaluation ends, with a
value or with a fault in the middle of an object, the world is as it was before, except for new
scopes at the end of the heap. The expression can be evaluated once more, with the same result up to
the numbers of the new scopes.

Both evaluations are followed side by side. They start from `h₀` and from `k₀`, which is `h₀` with
`d` more scopes, so the second one makes its objects `d` scopes further on. `Heap.Twin` relates the
heaps that they come to, and `Run.Twins` says of two steps that they end alike. What an evaluation
does on its own is said by the pair of it with itself, for `k₀ = h₀`.

None of this needs the chains of prototypes to end. If they do, then those of the new objects end as
well: what is evaluated for a member of an object does not see this object, nor the ones around it,
so among the new objects a prototype is always the later one.
-/

import GradualScript.Proofs.Run.Environment
import GradualScript.Proofs.Run.Renaming

namespace GradualScript

/-! ## Expressions without calls -/

mutual

/-- Every node of the expression is as `p` says. Methods of objects are not looked into, since
nothing of them is evaluated when the object is made. -/
def Expr.every (p : ExprKind → Bool) : Expr → Bool
  | ⟨_, kind⟩ => kind.every p

def ExprKind.every (p : ExprKind → Bool) : ExprKind → Bool
  | .literal value => p (.literal value)
  | .group inner => p (.group inner) && inner.every p
  | .binary op left right => p (.binary op left right) && left.every p && right.every p
  | .variable name => p (.variable name)
  | .property receiver name => p (.property receiver name) && receiver.every p
  | .call name arguments => p (.call name arguments) && Expr.allEvery p arguments
  | .invoke receiver name arguments =>
    p (.invoke receiver name arguments) && receiver.every p && Expr.allEvery p arguments
  | .object name fields methods => p (.object name fields methods) && Field.allEvery p fields

def Expr.allEvery (p : ExprKind → Bool) : List Expr → Bool
  | [] => true
  | e :: rest => e.every p && Expr.allEvery p rest

def Expr.optionEvery (p : ExprKind → Bool) : Option Expr → Bool
  | none => true
  | some e => e.every p

def Field.allEvery (p : ExprKind → Bool) : List Field → Bool
  | [] => true
  | ⟨_, ⟨_, _, value⟩⟩ :: rest => Expr.optionEvery p value && Field.allEvery p rest

end

def ExprKind.isCall : ExprKind → Bool
  | .call _ _ | .invoke _ _ _ => true
  | _ => false

def ExprKind.isObject : ExprKind → Bool
  | .object _ _ _ => true
  | _ => false

/-- The expression calls nothing, neither a function nor a method. -/
abbrev Expr.isCallFree (e : Expr) : Bool := e.every fun kind => !kind.isCall

/-- The expression makes no object. -/
abbrev Expr.isObjectFree (e : Expr) : Bool := e.every fun kind => !kind.isObject

/-! ## Values and what they refer to -/

namespace Value

/-- A value refers to none but the first `base` scopes, and sequences hold integers. -/
structure Inside (base : ScopeId) (v : Value) : Prop where
  flat : v.IsFlat
  object : ∀ name m, v = .object name m → m < base
  closure : ∀ f, v = .function (.closure f) → f.captured < base

/-- An object is one of the first `base` scopes or none of the first `low`. -/
structure IsFrom (base low : ScopeId) (v : Value) : Prop where
  flat : v.IsFlat
  object : ∀ name m, v = .object name m → m < base ∨ low ≤ m

variable {base low low' : ScopeId} {v : Value}

theorem Inside.isFrom (inside : v.Inside base) : v.IsFrom base low :=
  ⟨inside.flat, fun name m same => Or.inl (inside.object name m same)⟩

theorem Inside.renamed_eq {ρ : ScopeId → ScopeId} (inside : v.Inside base)
    (fixed : ∀ s < base, ρ s = s) : v.renamed ρ = v := by
  cases v with
  | function f =>
    cases f with
    | builtin f => rfl
    | closure f => rw [renamed, fixed _ (inside.closure f rfl)]
  | object name m => rw [renamed, fixed m (inside.object name m rfl)]
  | _ => rfl

namespace IsFrom

theorem mono (known : v.IsFrom base low) (le : low' ≤ low) : v.IsFrom base low' :=
  ⟨known.flat, fun name m same => (known.object name m same).imp_right (Nat.le_trans le)⟩

theorem of_isPlain (plain : v.IsPlain) : v.IsFrom base low where
  flat := by cases v <;> trivial
  object name m same := by
    subst same
    exact plain.elim

theorem function (f : Callable) : (Value.function f).IsFrom base low :=
  ⟨trivial, fun _ _ same => by cases same⟩

end IsFrom

mutual

theorem equals_self : ∀ v : Value, v.equals v = true
  | .iterable vs => equalsList_self vs
  | .function f => by cases f <;> simp [equals, Callable.equals]
  | .nil => rfl
  | .boolean _ | .integer _ | .decimal _ | .character _ | .string _ | .object _ _ => by
    simp [equals]

theorem equalsList_self : ∀ vs : List Value, equalsList vs vs = true
  | [] => rfl
  | v :: vs => by
    rw [equalsList, equals_self v, equalsList_self vs]
    rfl

end

end Value

/-! ## Two evaluations side by side -/

/-- Leaves the first `base` scopes alone and moves the others on by `d`. -/
def ScopeId.shift (base d s : Nat) : ScopeId := if s < base then s else s + d

namespace ScopeId

variable {base d s : Nat}

theorem shift_of_lt (old : s < base) : shift base d s = s := if_pos old

theorem shift_of_le (new : base ≤ s) : shift base d s = s + d := if_neg (Nat.not_lt.mpr new)

theorem shift_injective (base d : Nat) : Function.Injective (shift base d) := by
  intro (s : Nat) (t : Nat) (same : (if s < base then s else s + d) = if t < base then t else t + d)
  split at same <;> split at same <;> omega

end ScopeId

open ScopeId (shift)

/-- What the scopes of a heap bind refers to scopes of the heap. -/
def Heap.Contained (h : Heap Value) : Prop := h.Holds (Value.Inside h.size)

/-- To `h₀` another `d` scopes have been added, which has led to `k₀`. -/
structure Heap.Resumes (d : Nat) (h₀ k₀ : Heap Value) : Prop where
  contained : h₀.Contained
  keeps : h₀.Keeps ∅ k₀
  size : k₀.size = h₀.size + d

/-- Two evaluations have come from `h₀` to `h` and from `k₀` to `k`. Each has added scopes and
changed none, and those that they have added are the same up to renaming. An object that is bound in
an added scope is an old one, or was made after that scope. -/
structure Heap.Twin (d : Nat) (h₀ k₀ h k : Heap Value) : Prop where
  base : h₀.Resumes d k₀
  keeps : h₀.Keeps ∅ h
  keeps' : k₀.Keeps ∅ k
  size : k.size = h.size + d
  entries : ∀ s, (k.bindings (shift h₀.size d s)).entries =
    (h.bindings s).entries.map fun e => (e.1, e.2.renamed (shift h₀.size d))
  young : ∀ s, h₀.size ≤ s → ∀ n v, h.resolveLocal s n = some v → v.IsFrom h₀.size (s + 1)

namespace Heap

namespace Twin

variable {d : Nat} {h₀ k₀ h k : Heap Value} {s m p : ScopeId} {n : String} {v : Value}

/-- Both evaluations start where nothing has been added. -/
theorem start (base : h₀.Resumes d k₀) : Twin d h₀ k₀ h₀ k₀ where
  base := base
  keeps := .refl _ _
  keeps' := .refl _ _
  size := base.size
  entries s := by
    rcases Nat.lt_or_ge s h₀.size with old | out
    · rw [ScopeId.shift_of_lt old, base.keeps.same s old (Set.notMem_empty s)]
      have same : ∀ e ∈ (h₀.bindings s).entries, (e.1, e.2.renamed (shift h₀.size d)) = e := by
        intro e mem
        have inside := base.contained s e.1 e.2 (Bindings.find?_eq_some_of_mem mem)
        rw [inside.renamed_eq fun _ => ScopeId.shift_of_lt]
      rw [List.map_congr_left same, List.map_id']
    · have out' : k₀.size ≤ shift h₀.size d s := by
        rw [ScopeId.shift_of_le out, base.size]
        exact Nat.add_le_add_right out d
      rw [bindings_eq_empty_of_ge out, bindings_eq_empty_of_ge out']
      rfl
  young s out n v found := absurd (lt_size_of_resolveLocal found) (Nat.not_lt.mpr out)

theorem renames (twin : Twin d h₀ k₀ h k) : h.Renames (shift h₀.size d) k where
  size_le := (Nat.le_add_right _ _).trans_eq twin.size.symm
  entries := twin.entries

theorem root (twin : Twin d h₀ k₀ h k) : Twin d h₀ k₀ (h.root .empty).2 (k.root .empty).2 where
  base := twin.base
  keeps := twin.keeps.trans (.root _ _ _)
  keeps' := twin.keeps'.trans (.root _ _ _)
  size := by rw [size_root, size_root, twin.size, Nat.add_right_comm]
  entries s := by rw [bindings_root_empty, bindings_root_empty, twin.entries]
  young s out n v found := by
    rw [resolveLocal, bindings_root_empty] at found
    exact twin.young s out n v found

/-- A member is added to an object that is being made. -/
theorem put (twin : Twin d h₀ k₀ h k) (new : h₀.size ≤ s) (inside : s < h.size)
    (fresh : h.binds s n = false) (value : v.IsFrom h₀.size (s + 1)) :
    Twin d h₀ k₀ (h.put s n v) (k.put (shift h₀.size d s) n (v.renamed (shift h₀.size d))) := by
  have fresh' : k.binds (shift h₀.size d s) n = false := by rw [twin.renames.binds, fresh]
  have inside' : shift h₀.size d s < k.size := by
    rw [ScopeId.shift_of_le new, twin.size]
    exact Nat.add_lt_add_right inside d
  have new' : k₀.size ≤ shift h₀.size d s := by
    rw [ScopeId.shift_of_le new, twin.base.size]
    exact Nat.add_le_add_right new d
  refine ⟨twin.base, ?_, ?_, ?_, fun t => ?_, fun t out k u found => ?_⟩
  · exact twin.keeps.trans_fresh (.put fresh v) fun t same old =>
      absurd (same ▸ old) (Nat.not_lt.mpr new)
  · exact twin.keeps'.trans_fresh (.put fresh' _) fun t same old =>
      absurd (same ▸ old) (Nat.not_lt.mpr new')
  · rw [size_put, size_put, twin.size]
  · by_cases here : s = t
    · subst here
      rw [bindings_put_self inside', bindings_put_self inside,
        Bindings.entries_insert_of_not_mem _ (Bindings.not_mem_names_of_not_contains fresh'),
        Bindings.entries_insert_of_not_mem _ (Bindings.not_mem_names_of_not_contains fresh),
        twin.entries, List.map_append]
      rfl
    · rw [bindings_put_of_ne here, bindings_put_of_ne fun same =>
        here (ScopeId.shift_injective _ _ same), twin.entries]
  · rw [resolveLocal_put inside] at found
    split at found
    case isTrue here =>
      obtain rfl := Option.some.inj found
      rw [here.1]
      exact value
    case isFalse => exact twin.young t out k u found

/-! ### What is found -/

theorem resolveLocal_old (twin : Twin d h₀ k₀ h k) (old : s < h₀.size) (n : String) :
    h.resolveLocal s n = h₀.resolveLocal s n := by
  rw [resolveLocal, twin.keeps.same s old (Set.notMem_empty s), resolveLocal]

/-- Old scopes mean the same in both heaps, and nothing new. -/
theorem resolve (twin : Twin d h₀ k₀ h k) (old : s < h₀.size) (n : String) :
    h.resolve s n = h₀.resolve s n ∧ k.resolve s n = h₀.resolve s n :=
  ⟨twin.keeps.resolve_eq old n, (twin.base.keeps.trans twin.keeps').resolve_eq old n⟩

/-- The prototype of an old object is old. That of a new object is old or made after it. -/
theorem prototype?_cases (twin : Twin d h₀ k₀ h k) (link : Value.prototype? h m = some p) :
    Value.prototype? h₀ m = some p ∧ p < h₀.size ∨
      h₀.size ≤ m ∧ (p < h₀.size ∨ m + 1 ≤ p) := by
  obtain ⟨name, found⟩ := Value.prototype?_eq_some_iff.mp link
  rcases Nat.lt_or_ge m h₀.size with old | new
  · rw [twin.resolveLocal_old old] at found
    exact Or.inl ⟨Value.prototype?_eq_some_iff.mpr ⟨name, found⟩,
      (twin.base.contained m _ _ found).object name p rfl⟩
  · exact Or.inr ⟨new, (twin.young m new _ _ found).object name p rfl⟩

/-- Chains of prototypes go on to end: among the new objects they lead to later ones. -/
theorem ends (twin : Twin d h₀ k₀ h k) (ends₀ : ∀ m, Walk.Ends (Value.prototype? h₀) m)
    (m : ScopeId) : Walk.Ends (Value.prototype? h) m := by
  have old : ∀ m < h₀.size, Walk.Ends (Value.prototype? h) m := by
    intro m
    induction ends₀ m with
    | intro m _ ih =>
      intro inside
      refine .intro m fun p link => ?_
      rcases twin.prototype?_cases link with ⟨link, below⟩ | ⟨new, _⟩
      · exact ih p link below
      · exact absurd inside (Nat.not_lt.mpr new)
  have within : ∀ count m, h.size ≤ m + count → Walk.Ends (Value.prototype? h) m := by
    intro count
    induction count with
    | zero =>
      intro m out
      refine .intro m fun p link => ?_
      cases (Value.prototype?_eq_none_of_ge out).symm.trans link
    | succ count ih =>
      intro m near
      refine .intro m fun p link => ?_
      rcases twin.prototype?_cases link with ⟨_, below⟩ | ⟨_, below | later⟩
      · exact old p below
      · exact old p below
      · refine ih p (near.trans ?_)
        rw [← Nat.add_assoc, Nat.add_right_comm]
        exact Nat.add_le_add_right later count
  exact within h.size m (Nat.le_add_left _ _)

/-- What is found in an object that is old, or made after `low`, is old or made after `low` too. -/
theorem isFrom_of_lookup (twin : Twin d h₀ k₀ h k) {low : ScopeId}
    (known : m < h₀.size ∨ low ≤ m) (found : Value.lookup h m n = some v) :
    v.IsFrom h₀.size low := by
  have passes (m p : ScopeId) (link : Value.prototype? h m = some p)
      (known : m < h₀.size ∨ low ≤ m) : p < h₀.size ∨ low ≤ p := by
    rcases twin.prototype?_cases link with ⟨_, below⟩ | ⟨new, below | later⟩
    · exact Or.inl below
    · exact Or.inl below
    · have le := known.resolve_left (Nat.not_lt.mpr new)
      exact Or.inr (le.trans ((Nat.le_succ m).trans later))
  obtain ⟨t, known, own⟩ := Value.exists_resolveLocal_of_lookup_of passes known found
  rcases Nat.lt_or_ge t h₀.size with old | new
  · rw [twin.resolveLocal_old old] at own
    exact (twin.base.contained t n v own).isFrom
  · have le := known.resolve_left (Nat.not_lt.mpr new)
    exact (twin.young t new n v own).mono (Nat.le_succ_of_le le)

end Twin

end Heap

/-! ## Steps side by side -/

/-- Two evaluations have gone on from `w` and `u` to `w'` and `u'`. -/
structure World.Goes (d : Nat) (h₀ k₀ : Heap Value) (w u w' u' : World) : Prop where
  output : w'.output = w.output
  output' : u'.output = u.output
  size_le : w.heap.size ≤ w'.heap.size
  twin : h₀.Twin d k₀ w'.heap u'.heap

namespace World.Goes

variable {d : Nat} {h₀ k₀ : Heap Value} {w u w' u' w'' u'' : World}

theorem refl (twin : h₀.Twin d k₀ w.heap u.heap) : w.Goes d h₀ k₀ u w u :=
  ⟨rfl, rfl, Nat.le_refl _, twin⟩

theorem trans (first : w.Goes d h₀ k₀ u w' u') (second : w'.Goes d h₀ k₀ u' w'' u'') :
    w.Goes d h₀ k₀ u w'' u'' where
  output := second.output.trans first.output
  output' := second.output'.trans first.output'
  size_le := first.size_le.trans second.size_le
  twin := second.twin

end World.Goes

namespace Run

variable {α β : Type} {d : Nat} {h₀ k₀ : Heap Value} {w u w' u' : World}

/-- Both steps come to results as `Q` says, or both are stopped by the same fault. -/
inductive TwinEnds (d : Nat) (h₀ k₀ : Heap Value) (w u : World) (Q : α → α → Prop) :
    EStateM.Result Halt World α → EStateM.Result Halt World α → Prop
  | ok {a b : α} {w' u' : World} : w.Goes d h₀ k₀ u w' u' → Q a b →
      TwinEnds d h₀ k₀ w u Q (.ok a w') (.ok b u')
  | fault {fault : Located EvalError} {w' u' : World} : w.Goes d h₀ k₀ u w' u' →
      TwinEnds d h₀ k₀ w u Q (.error (.fault fault) w') (.error (.fault fault) u')

/-- Taken in `w` and `u`, the two steps end alike. -/
def Twins (d : Nat) (h₀ k₀ : Heap Value) (x y : Run α) (w u : World) (Q : α → α → Prop) : Prop :=
  TwinEnds d h₀ k₀ w u Q (x w) (y u)

namespace Twins

variable {x y : Run α} {f g : α → Run β} {Q : α → α → Prop} {S : β → β → Prop}

theorem after (goes : w.Goes d h₀ k₀ u w' u') {a b : EStateM.Result Halt World α}
    (ends : TwinEnds d h₀ k₀ w' u' Q a b) : TwinEnds d h₀ k₀ w u Q a b := by
  cases ends with
  | ok more post => exact .ok (goes.trans more) post
  | fault more => exact .fault (goes.trans more)

theorem bind (first : Twins d h₀ k₀ x y w u Q)
    (second : ∀ a b w' u', w.Goes d h₀ k₀ u w' u' → Q a b → Twins d h₀ k₀ (f a) (g b) w' u' S) :
    Twins d h₀ k₀ (x >>= f) (y >>= g) w u S := by
  unfold Twins at first ⊢
  simp only [Bind.bind, EStateM.bind]
  generalize x w = r, y u = q at first ⊢
  cases first with
  | ok goes post => exact after goes (second _ _ _ _ goes post)
  | fault goes => exact .fault goes

theorem pure (twin : h₀.Twin d k₀ w.heap u.heap) {a b : α} (post : Q a b) :
    Twins d h₀ k₀ (Pure.pure a) (Pure.pure b) w u Q := .ok (.refl twin) post

theorem fail (twin : h₀.Twin d k₀ w.heap u.heap) (cause : EvalError) :
    Twins d h₀ k₀ (Run.fail cause : Run α) (Run.fail cause) w u Q := .fault (.refl twin)

theorem failAt (twin : h₀.Twin d k₀ w.heap u.heap) (node : NodeRef) (cause : EvalError) :
    Twins d h₀ k₀ (Run.failAt node cause : Run α) (Run.failAt node cause) w u Q :=
  .fault (.refl twin)

theorem located {node : NodeRef} (twins : Twins d h₀ k₀ x y w u Q) :
    Twins d h₀ k₀ (Run.located node x) (Run.located node y) w u Q := by
  unfold Twins Run.located at *
  generalize x w = r, y u = q at twins ⊢
  cases twins with
  | ok goes post => exact .ok goes post
  | fault goes => exact .fault goes

/-- An operation on values that has the same result in both heaps. -/
theorem rule (twin : h₀.Twin d k₀ w.heap u.heap) {result result' : Heap Value → Except EvalError α}
    (same : result' u.heap = result w.heap) (ok : ∀ a, result w.heap = .ok a → Q a a) :
    Twins d h₀ k₀ (Run.rule result) (Run.rule result') w u Q := by
  unfold Twins Run.rule
  rw [same]
  cases judged : result w.heap with
  | ok a => exact .ok (.refl twin) (ok a judged)
  | error cause => exact .fault (.refl twin)

theorem read_bind {question question' : Heap Value → α}
    (next : Twins d h₀ k₀ (f (question w.heap)) (g (question' u.heap)) w u S) :
    Twins d h₀ k₀ (Run.read question >>= f) (Run.read question' >>= g) w u S := next

theorem root_bind (twin : h₀.Twin d k₀ w.heap u.heap) {f g : ScopeId → Run β}
    (next : Twins d h₀ k₀ (f w.heap.size) (g u.heap.size) ⟨(w.heap.root .empty).2, w.output⟩
      ⟨(u.heap.root .empty).2, u.output⟩ S) :
    Twins d h₀ k₀ (Run.root >>= f) (Run.root >>= g) w u S := by
  have goes : w.Goes d h₀ k₀ u ⟨(w.heap.root .empty).2, w.output⟩
      ⟨(u.heap.root .empty).2, u.output⟩ :=
    ⟨rfl, rfl, Nat.le_of_lt (Heap.lt_size_root _ _), twin.root⟩
  exact after goes next

theorem define (twin : h₀.Twin d k₀ w.heap u.heap) {s : ScopeId} (new : h₀.size ≤ s)
    (inside : s < w.heap.size) {v : Value} (value : v.IsFrom h₀.size (s + 1)) (name : String)
    (cause : EvalError) :
    Twins d h₀ k₀ (Run.define s name v cause)
      (Run.define (shift h₀.size d s) name (v.renamed (shift h₀.size d)) cause) w u
      fun _ _ => True := by
  refine read_bind ?_
  rw [twin.renames.binds]
  cases fresh : w.heap.binds s name with
  | true => exact fail twin cause
  | false =>
    have put := twin.put new inside fresh value
    exact .ok ⟨rfl, rfl, Nat.le_of_eq (Heap.size_put ..).symm, put⟩ trivial

end Twins

/-! ## Evaluating twice -/

/-- The value `b` is what `a` is, with the new objects of the second evaluation. -/
structure Recurs (d base low : ScopeId) (a b : Value) : Prop where
  copy : b = a.renamed (shift base d)
  known : a.IsFrom base low

theorem Recurs.of_isPlain {base low : ScopeId} {a : Value} (plain : a.IsPlain) :
    Recurs d base low a a :=
  ⟨(Value.renamed_of_isPlain plain).symm, .of_isPlain plain⟩

variable {call : Caller} {s : ScopeId}

theorem membersOf_twins (twin : h₀.Twin d k₀ w.heap u.heap) (node : NodeRef) {low : ScopeId}
    {v v' : Value} (receiver : Recurs d h₀.size low v v') :
    Twins d h₀ k₀ (membersOf node v) (membersOf node v') w u fun m m' =>
      m' = shift h₀.size d m ∧ (m < h₀.size ∨ low ≤ m) := by
  obtain ⟨rfl, known⟩ := receiver
  cases v with
  | object name m => exact .pure twin ⟨rfl, known.object name m rfl⟩
  | function f => cases f <;> exact .failAt twin _ _
  | _ => exact .failAt twin _ _

theorem defineMethods_twins {m : ScopeId} (new : h₀.size ≤ m) : ∀ (methods : List Method)
    {w u : World}, h₀.Twin d k₀ w.heap u.heap → m < w.heap.size →
    Twins d h₀ k₀ (defineMethods m methods) (defineMethods (shift h₀.size d m) methods) w u
      fun _ _ => True
  | [], _, _, twin, _ => .pure twin trivial
  | ⟨node, definition⟩ :: rest, w, u, twin, inside => by
    rw [defineMethods, defineMethods]
    have closure : (Value.function (.closure ⟨definition, m, true⟩)).IsFrom h₀.size (m + 1) :=
      .function _
    refine .bind (.located (.define twin new inside closure _ _)) fun _ _ w' u' goes _ => ?_
    exact defineMethods_twins new rest goes.twin (Nat.lt_of_lt_of_le inside goes.size_le)

mutual

/-- Evaluated in an old scope on both sides, an expression comes to a value and to its copy, or
twice to the same fault. -/
theorem evaluate_twins (old : s < h₀.size) : ∀ {e : Expr} {w u : World},
    e.isCallFree = true → h₀.Twin d k₀ w.heap u.heap →
      Twins d h₀ k₀ (evaluate call s e) (evaluate call s e) w u (Recurs d h₀.size w.heap.size)
  | ⟨node, kind⟩, w, u, free, twin => by
    rw [evaluate]
    rw [Expr.isCallFree, Expr.every] at free
    exact .located (evaluateKind_twins old free twin)

theorem evaluateKind_twins (old : s < h₀.size) : ∀ {e : ExprKind} {w u : World},
    (e.every fun kind => !kind.isCall) = true → h₀.Twin d k₀ w.heap u.heap →
      Twins d h₀ k₀ (evaluateKind call s e) (evaluateKind call s e) w u
        (Recurs d h₀.size w.heap.size)
  | .literal value, w, u, free, twin => by
    rw [evaluateKind]
    exact .pure twin (.of_isPlain (Value.isPlain_ofLiteral value))
  | .group inner, w, u, free, twin => by
    rw [evaluateKind]
    rw [ExprKind.every, Bool.and_eq_true] at free
    exact evaluate_twins old free.2 twin
  | .binary op left right, w, u, free, twin => by
    rw [evaluateKind]
    simp only [ExprKind.every, Bool.and_eq_true] at free
    refine .bind (evaluate_twins old free.1.2 twin) fun l l' w₁ u₁ goes₁ first => ?_
    obtain ⟨rfl, leftKnown⟩ := first
    -- Operators see plain data, which the shift leaves as it is, or else only the kind of a value.
    have data := l.renamed_eq_or_not_plain (ρ := shift h₀.size d)
    rw [op.leftFault?_eq l.kind_renamed data, op.decided?_eq data]
    cases fault : op.leftFault? l with
    | some cause => exact .failAt goes₁.twin _ _
    | none =>
      cases decided : op.decided? l with
      | some v => exact .pure goes₁.twin (.of_isPlain (op.decided?_plain decided))
      | none =>
        refine .bind (evaluate_twins old free.2 goes₁.twin)
          fun r r' w₂ u₂ goes₂ second => ?_
        obtain ⟨rfl, rightKnown⟩ := second
        have renames := goes₂.twin.renames
        refine .located (.rule goes₂.twin ?_ fun v ok => .of_isPlain (op.combine_plain ok))
        exact op.combine_eq (renames.resembles leftKnown.flat) (renames.resembles rightKnown.flat)
          (Value.equals_renamed (ScopeId.shift_injective _ _) l r)
  | .variable name, w, u, free, twin => by
    rw [evaluateKind]
    refine .read_bind ?_
    -- The name is bound in a scope that was there before, and so is all that its value leads to.
    obtain ⟨here, there⟩ := twin.resolve old name
    rw [here, there]
    cases found : h₀.resolve s name with
    | none => exact .fail twin _
    | some v =>
      obtain ⟨t, _, bound⟩ := Heap.exists_resolveLocal_of_resolve found
      have inside := twin.base.contained t name v bound
      exact .pure twin ⟨(inside.renamed_eq fun _ => ScopeId.shift_of_lt).symm, inside.isFrom⟩
  | .property receiver name, w, u, free, twin => by
    rw [evaluateKind]
    rw [ExprKind.every, Bool.and_eq_true] at free
    refine .bind (evaluate_twins old free.2 twin) fun v v' w₁ u₁ goes₁ object => ?_
    refine .bind (membersOf_twins goes₁.twin _ object) fun m m' w₂ u₂ goes₂ members => ?_
    obtain ⟨rfl, known⟩ := members
    refine .read_bind ?_
    rw [goes₂.twin.renames.lookup]
    cases found : Value.lookup w₂.heap m name with
    | none => exact .fail goes₂.twin _
    | some v => exact .pure goes₂.twin ⟨rfl, goes₂.twin.isFrom_of_lookup known found⟩
  | .object name fields methods, w, u, free, twin => by
    rw [evaluateKind]
    rw [ExprKind.every, Bool.and_eq_true] at free
    have new : h₀.size ≤ w.heap.size := twin.keeps.size_le
    -- The scope that is new in the one run is the shifted one in the other.
    have there : u.heap.size = shift h₀.size d w.heap.size := by
      rw [ScopeId.shift_of_le new, twin.size]
    refine .root_bind twin ?_
    rw [there]
    have inside : w.heap.size < (w.heap.root .empty).2.size := Heap.lt_size_root _ _
    refine .bind (defineFields_twins old new free.2 twin.root inside)
      fun _ _ w₁ u₁ goes₁ _ => ?_
    have inside₁ := Nat.lt_of_lt_of_le inside goes₁.size_le
    refine .bind (defineMethods_twins new methods goes₁.twin inside₁)
      fun _ _ w₂ u₂ goes₂ _ => ?_
    refine .pure goes₂.twin ⟨rfl, trivial, ?_⟩
    rintro _ _ ⟨⟩
    exact Or.inr (Nat.le_refl _)
  | .call _ _, _, _, free, _ | .invoke _ _ _, _, _, free, _ => by
    simp [ExprKind.every, ExprKind.isCall] at free

theorem evaluateOption_twins (old : s < h₀.size) : ∀ {e : Option Expr} {w u : World},
    Expr.optionEvery (fun kind => !kind.isCall) e = true → h₀.Twin d k₀ w.heap u.heap →
      Twins d h₀ k₀ (evaluateOption call s e) (evaluateOption call s e) w u
        (Recurs d h₀.size w.heap.size)
  | none, w, u, _, twin => by
    rw [evaluateOption]
    exact .pure twin (.of_isPlain trivial)
  | some e, w, u, free, twin => by
    rw [evaluateOption]
    rw [Expr.optionEvery] at free
    exact evaluate_twins old free twin

theorem defineFields_twins (old : s < h₀.size) {m : ScopeId} (new : h₀.size ≤ m) :
    ∀ {fields : List Field} {w u : World},
      Field.allEvery (fun kind => !kind.isCall) fields = true → h₀.Twin d k₀ w.heap u.heap →
      m < w.heap.size → Twins d h₀ k₀ (defineFields call s m fields)
        (defineFields call s (shift h₀.size d m) fields) w u fun _ _ => True
  | [], w, u, _, twin, _ => by
    rw [defineFields]
    exact .pure twin trivial
  | ⟨node, ⟨name, _, value⟩⟩ :: rest, w, u, free, twin, inside => by
    rw [defineFields]
    rw [Field.allEvery, Bool.and_eq_true] at free
    refine .bind (evaluateOption_twins old free.1 twin) fun v v' w₁ u₁ goes₁ same => ?_
    obtain ⟨rfl, known⟩ := same
    have inside₁ := Nat.lt_of_lt_of_le inside goes₁.size_le
    refine .bind (.located (.define goes₁.twin new inside₁ (known.mono inside) _ _))
      fun _ _ w₂ u₂ goes₂ _ => ?_
    exact defineFields_twins old new free.2 goes₂.twin
      (Nat.lt_of_lt_of_le inside₁ goes₂.size_le)

end

/-! ### Without objects -/

mutual

/-- An expression that neither calls anything nor makes an object changes nothing. -/
theorem evaluate_still : ∀ {e : Expr}, e.isCallFree = true → e.isObjectFree = true →
    Still (evaluate call s e)
  | ⟨node, kind⟩, callFree, objectFree => by
    rw [evaluate]
    rw [Expr.isCallFree, Expr.every] at callFree
    rw [Expr.isObjectFree, Expr.every] at objectFree
    exact .located (evaluateKind_still callFree objectFree)

theorem evaluateKind_still : ∀ {e : ExprKind}, (e.every fun kind => !kind.isCall) = true →
    (e.every fun kind => !kind.isObject) = true → Still (evaluateKind call s e)
  | .literal value, _, _ => by
    rw [evaluateKind]
    exact .pure _
  | .group inner, callFree, objectFree => by
    rw [evaluateKind]
    rw [ExprKind.every, Bool.and_eq_true] at callFree objectFree
    exact evaluate_still callFree.2 objectFree.2
  | .binary op left right, callFree, objectFree => by
    rw [evaluateKind]
    simp only [ExprKind.every, Bool.and_eq_true] at callFree objectFree
    refine .bind (evaluate_still callFree.1.2 objectFree.1.2) fun l => ?_
    cases op.leftFault? l with
    | some cause => exact .failAt _ _
    | none =>
      cases op.decided? l with
      | some v => exact .pure v
      | none =>
        exact .bind (evaluate_still callFree.2 objectFree.2) fun r => .located (.rule _)
  | .variable name, _, _ => by
    rw [evaluateKind]
    refine .read_bind fun found => ?_
    cases found with
    | some v => exact .pure v
    | none => exact .fail _
  | .property receiver name, callFree, objectFree => by
    rw [evaluateKind]
    rw [ExprKind.every, Bool.and_eq_true] at callFree objectFree
    refine .bind (evaluate_still callFree.2 objectFree.2) fun v =>
      .bind (.membersOf _ v) fun members => .read_bind fun found => ?_
    cases found with
    | some v => exact .pure v
    | none => exact .fail _
  | .call _ _, callFree, _ | .invoke _ _ _, callFree, _ => by
    simp [ExprKind.every, ExprKind.isCall] at callFree
  | .object _ _ _, _, objectFree => by
    simp [ExprKind.every, ExprKind.isObject] at objectFree

end

end Run

/-! ## Purity -/

/-- From `w` to `w'` at most scopes have been added. Those of `w` are as they were, and so is the
output. -/
structure World.Spared (w w' : World) : Prop where
  scopes : w.heap.Keeps ∅ w'.heap
  output : w'.output = w.output

/-- The step comes to an end in `w`, and so it does when it is taken again where it has led. Both
times the world is spared. There are two values, for which `V` holds, or it is twice the same fault.
If the chains of prototypes end in `w`, then those in between end as well. -/
inductive Run.Repeats (V : Value → Value → Prop) (x : Run Value) (w : World) : Prop
  | values {v u : Value} {w₁ w₂ : World} :
      x w = .ok v w₁ → w.Spared w₁ →
      ((∀ m, Walk.Ends (Value.prototype? w.heap) m) →
        ∀ m, Walk.Ends (Value.prototype? w₁.heap) m) →
      x w₁ = .ok u w₂ → w₁.Spared w₂ → V v u → Repeats V x w
  | fault {fault : Located EvalError} {w₁ w₂ : World} :
      x w = .error (.fault fault) w₁ → w.Spared w₁ →
      ((∀ m, Walk.Ends (Value.prototype? w.heap) m) →
        ∀ m, Walk.Ends (Value.prototype? w₁.heap) m) →
      x w₁ = .error (.fault fault) w₂ → w₁.Spared w₂ → Repeats V x w

/-- An expression without calls can be evaluated twice in any heap that refers to no scope
outside. -/
theorem Run.evaluate_repeats {call : Run.Caller} {s : ScopeId} {e : Expr} {w : World}
    (contained : w.heap.Contained) (old : s < w.heap.size) (free : e.isCallFree = true) :
    Repeats (fun v u => e.isObjectFree = true → v.equals u = true) (evaluate call s e) w := by
  have once : TwinEnds 0 w.heap w.heap w w _ (evaluate call s e w) (evaluate call s e w) :=
    evaluate_twins old free (.start ⟨contained, .refl _ _, rfl⟩)
  have twice : ∀ {w₁ : World}, w.heap.Keeps ∅ w₁.heap →
      ∃ d, TwinEnds d w.heap w₁.heap w w₁ (Recurs d w.heap.size w.heap.size)
        (evaluate call s e w) (evaluate call s e w₁) := by
    intro w₁ keeps
    obtain ⟨d, size⟩ := Nat.exists_eq_add_of_le keeps.size_le
    exact ⟨d, evaluate_twins old free (.start ⟨contained, keeps, size⟩)⟩
  generalize result : evaluate call s e w = r at once twice
  cases once with
  | @ok v _ w₁ _ goes =>
    obtain ⟨d, again⟩ := twice goes.twin.keeps
    generalize result' : evaluate call s e w₁ = r' at again
    cases again with
    | @ok _ u _ w₂ goes' =>
      refine .values result ⟨goes.twin.keeps, goes.output⟩ goes.twin.ends result'
        ⟨goes'.twin.keeps', goes'.output'⟩ fun objectFree => ?_
      -- Without objects the first evaluation has changed nothing, so the second one is the same.
      have heap := ((evaluate_still free objectFree).of_ok result).heap
      have same : w₁ = w := by
        cases w₁
        cases w
        exact congr (congrArg World.mk heap) goes.output
      rw [same, result] at result'
      cases result'
      exact v.equals_self
  | @fault _ w₁ _ goes =>
    obtain ⟨d, again⟩ := twice goes.twin.keeps
    generalize result' : evaluate call s e w₁ = r' at again
    cases again with
    | fault goes' =>
      exact .fault result ⟨goes.twin.keeps, goes.output⟩ goes.twin.ends result'
        ⟨goes'.twin.keeps', goes'.output'⟩

theorem Value.Descended.inside {log : List Moment} {h : Heap Value} {v : Value}
    (known : v.Descended log h) : v.Inside h.size where
  flat := known.isFlat
  object name m same := by
    subst same
    exact known
  closure f same := by
    subst same
    exact known.1

namespace RunSession

/-- At every moment of every session, whatever the scripts are, an expression without calls is pure:
neither a scope that was there before nor the output has changed when its evaluation ends, also if
it fails. The run is still in the active scope. A second evaluation fails like the first one or
comes to a value, too, and to an equal one if the expression makes no object. If all chains of
prototypes end, then so do those of the new objects, and no search comes to its bound
(`Value.lookupWithin_eq_lookup`). -/
theorem call_free_pure (fixtures : Bool) (depth : Nat) (scripts : List Script) {now : Moment}
    (mem : now ∈ moments fixtures depth scripts) {e : Expr} (free : e.isCallFree = true) :
    (∀ (call : Run.Caller) (output : Array String),
      Run.Repeats (fun v u => e.isObjectFree = true → v.equals u = true)
        (Run.evaluate call now.place.scope e) ⟨now.heap, output⟩) ∧
    ∀ (depth : Nat) (r : Stage), r.place = now.place →
      Staged.forget (Staged.evaluate (Staged.callClosure depth) e r) =
          Run.evaluate (Run.callClosure depth) now.place.scope e r.world ∧
        (Staged.after (Staged.evaluate (Staged.callClosure depth) e) r).place = now.place := by
  have known := ((moments_descended fixtures depth scripts).moments now mem).1
  have contained : now.heap.Contained :=
    fun s n v found => (known.occurs v (Or.inl ⟨s, n, found⟩)).inside
  refine ⟨fun call output => ?_, fun depth r place => ?_⟩
  · exact Run.evaluate_repeats contained known.place.inside free
  · have runs : Discipline.lax.Runs ∅ _ _ r Discipline.lax.Knows :=
      Discipline.evaluate_runs Discipline.kept_lax
        (Discipline.callClosure_runs Discipline.kept_lax depth) e (Discipline.ready_lax r)
    rw [← place]
    exact ⟨runs.forget, runs.passes.grows.place⟩

/-- Whether `x` is the same in a new object as in its prototype `child`. -/
def inheritsX : Expr :=
  ⟨default, .binary .eq
    ⟨default, .property ⟨default, .object none
      [⟨default, ⟨"prototype", none, some ⟨default, .variable "child"⟩⟩⟩] []⟩ "x"⟩
    ⟨default, .property ⟨default, .variable "child"⟩ "x"⟩⟩

/-- Whether prototypes are older than their objects, and `inheritsX` makes an object and is true. -/
def Moment.inherits (now : Moment) : Bool :=
  (List.range now.heap.size).all (fun m => (Value.prototype? now.heap m).all fun p => p < m) &&
  match Run.evaluate (Run.callClosure 0) now.place.scope inheritsX ⟨now.heap, #[]⟩ with
  | .ok (.boolean true) w => w.heap.size == now.heap.size + 1
  | _ => false

/-- When `child` has been defined, `inheritsX` finds `x` three prototypes on. The scope of the new
object is left behind, and nothing else. -/
theorem call_free_pure_relatives :
    ∃ now ∈ moments false 0 [Run.relativesScript],
      (∀ m, Walk.Ends (Value.prototype? now.heap) m) ∧ inheritsX.isCallFree = true ∧
      ∃ w, Run.evaluate (Run.callClosure 0) now.place.scope inheritsX ⟨now.heap, #[]⟩ =
          .ok (.boolean true) w ∧
        World.Spared ⟨now.heap, #[]⟩ w ∧ w.heap.size = now.heap.size + 1 := by
  have judged : (moments false 0 [Run.relativesScript]).any Moment.inherits = true := by
    decide +kernel
  obtain ⟨now, mem, judged⟩ := List.any_eq_true.mp judged
  rw [Moment.inherits, Bool.and_eq_true] at judged
  obtain ⟨older, value⟩ := judged
  have ends := Walk.Ends.of_lt fun m p link => by
    have here := List.all_eq_true.mp older m
      (List.mem_range.mpr (Value.lt_size_of_prototype? link))
    rw [link] at here
    exact of_decide_eq_true here
  have free : inheritsX.isCallFree = true := by decide
  refine ⟨now, mem, ends, free, ?_⟩
  split at value
  case h_2 => cases value
  case h_1 w result =>
    refine ⟨w, result, ?_, beq_iff_eq.mp value⟩
    cases (call_free_pure false 0 _ mem free).1 (Run.callClosure 0) #[] with
    | values first spared =>
      rw [result] at first
      cases first
      exact spared
    | fault first =>
      rw [result] at first
      cases first

end RunSession

end GradualScript
