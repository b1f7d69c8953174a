/-
# GradualScript.Proofs.Run.InStep -- two runs, step by step

Two runs of scripts that are alike meet the same values in the same scopes. Only the definitions in
their closures may be different, and those are alike again. So the two heaps are alike too: scope by
scope, they bind the same names in the same order to values that are alike (`Heap.AllAlike`).

Nothing that a run asks of its values and of its heap tells such values apart: not their kinds, not
equality, not their printed and debugging forms, and no operator. Two steps are therefore in step
(`Run.InStep`) if from worlds that are alike they come to ends that are alike: to results as a given
relation says, or to faults with the same cause, at nodes that correspond to each other.

The first step may be granted fewer nested calls than the second one. If it is stopped for that, the
second one may do anything. So what holds of runs in step holds of runs that are granted different
depths, as long as the first one finishes.
-/

import GradualScript.Proofs.Syntax.Likeness
import GradualScript.Proofs.Run.Operands
import Mathlib.Data.List.Forall2

namespace GradualScript

variable {L : Likeness}

/-! ## Values -/

/-- Closures of definitions that are alike, in the same scope. -/
structure Closure.Alike (L : Likeness) (f g : Closure) : Prop where
  definition : f.definition.Alike L g.definition
  captured : g.captured = f.captured
  isMethod : g.isMethod = f.isMethod

/-- Values that differ only in the definitions of their closures. -/
inductive Value.Alike (L : Likeness) : Value → Value → Prop
  | plain {v : Value} : v.IsPlain → Value.Alike L v v
  | builtin (f : Builtin) : Value.Alike L (.function (.builtin f)) (.function (.builtin f))
  | closure {f g : Closure} : f.Alike L g →
      Value.Alike L (.function (.closure f)) (.function (.closure g))
  | object (name : Option String) (members : ScopeId) :
      Value.Alike L (.object name members) (.object name members)
  | iterable {vs us : List Value} : List.Forall₂ (Value.Alike L) vs us →
      Value.Alike L (.iterable vs) (.iterable us)

/-- Values one by one. -/
abbrev Value.AllAlike (L : Likeness) : List Value → List Value → Prop :=
  List.Forall₂ (Value.Alike L)

namespace Closure.Alike

variable {f g : Closure}

theorem name_eq (alike : f.Alike L g) : g.definition.name = f.definition.name :=
  alike.definition.name_eq

theorem params_length_eq (alike : f.Alike L g) :
    g.definition.params.length = f.definition.params.length := by
  have names := congrArg List.length alike.definition.paramNames_eq
  rwa [Definition.paramNames, Definition.paramNames, List.length_map, List.length_map] at names

theorem arity_eq (alike : f.Alike L g) : g.arity = f.arity := by
  rw [Closure.arity, Closure.arity, alike.params_length_eq, alike.isMethod]

theorem boundNames_eq (alike : f.Alike L g) : g.boundNames = f.boundNames := by
  rw [Closure.boundNames, Closure.boundNames, alike.definition.paramNames_eq, alike.isMethod]

end Closure.Alike

namespace Value

variable {v u v' u' : Value} {vs us : List Value}

namespace Alike

theorem nil : Value.nil.Alike L .nil := .plain trivial

theorem ofLiteral (value : Literal) : (Value.ofLiteral value).Alike L (Value.ofLiteral value) :=
  .plain (isPlain_ofLiteral value)

/-- Values that are alike are of one kind, which is what complaints tell of them. -/
theorem kind_eq (alike : v.Alike L u) : u.kind = v.kind := by
  cases alike <;> rfl

/-- Plain data is alike only to itself. The other values have a kind in common. -/
theorem eq_or_not_plain (alike : v.Alike L u) :
    u = v ∧ v.IsPlain ∨ ¬v.IsPlain ∧ ¬u.IsPlain := by
  cases alike with
  | plain data => exact Or.inl ⟨rfl, data⟩
  | _ => exact Or.inr ⟨id, id⟩

end Alike

mutual

/-- Values that are alike are equal to the same values: closures are compared by their captured
scopes and names. -/
theorem equals_alike : ∀ {v u v' u' : Value}, v.Alike L u → v'.Alike L u' →
    u.equals u' = v.equals v'
  | .iterable vs, u, v', u', first, second => by
    cases first with
    | plain data => exact data.elim
    | iterable all =>
      cases second with
      | plain data => cases v' <;> first | exact data.elim | rfl
      | iterable all' => exact equalsList_alike all all'
      | _ => rfl
  | .function f, u, v', u', first, second => by
    cases first with
    | plain data => exact data.elim
    | builtin f =>
      cases second with
      | plain data => cases v' <;> first | exact data.elim | rfl
      | _ => rfl
    | closure alike =>
      cases second with
      | plain data => cases v' <;> first | exact data.elim | rfl
      | closure alike' =>
        -- Closures are compared by their names and the scopes that they captured.
        simp only [equals, Callable.equals, alike.name_eq, alike'.name_eq, alike.captured,
          alike'.captured]
      | _ => rfl
  | .object name members, u, v', u', first, second => by
    cases first with
    | plain data => exact data.elim
    | object =>
      cases second with
      | plain data => rfl
      | _ => rfl
  | .nil, u, v', u', first, second | .boolean _, u, v', u', first, second
  | .integer _, u, v', u', first, second | .decimal _, u, v', u', first, second
  | .character _, u, v', u', first, second | .string _, u, v', u', first, second => by
    cases first
    cases second <;> rfl

theorem equalsList_alike : ∀ {vs us vs' us' : List Value}, AllAlike L vs us → AllAlike L vs' us' →
    equalsList us us' = equalsList vs vs'
  | [], us, vs', us', first, second => by
    cases first
    cases second <;> rfl
  | v :: vs, us, vs', us', first, second => by
    obtain _ | ⟨alike, all⟩ := first
    obtain _ | ⟨alike', all'⟩ := second
    · rfl
    · rw [equalsList, equalsList, equals_alike alike alike', equalsList_alike all all']

end

mutual

/-- Values that are alike are printed the same inside an object. -/
theorem brief_alike : ∀ {v u : Value}, v.Alike L u → u.brief = v.brief
  | .iterable vs, u, alike => by
    cases alike with
    | plain data => rfl
    | iterable all => rw [brief, brief, briefList_alike all]
  | .function f, u, alike => by
    cases alike with
    | closure alike => simp only [brief, Callable.name, alike.name_eq]
    | _ => rfl
  | .object name members, u, alike => by
    cases alike <;> rfl
  | .nil, u, alike | .boolean _, u, alike | .integer _, u, alike | .decimal _, u, alike
  | .character _, u, alike | .string _, u, alike => by
    cases alike
    rfl

theorem briefList_alike : ∀ {vs us : List Value}, AllAlike L vs us → briefList us = briefList vs
  | [], us, all => by
    cases all
    rfl
  | v :: vs, us, all => by
    obtain _ | ⟨alike, all⟩ := all
    rw [briefList, briefList, brief_alike alike, briefList_alike all]

end

end Value

/-! ## Heaps -/

/-- Bindings of one name to values that are alike. -/
def EntryAlike (L : Likeness) (a b : String × Value) : Prop := b.1 = a.1 ∧ a.2.Alike L b.2

/-- The same names, in the same order, are bound to values that are alike. -/
abbrev Bindings.Alike (L : Likeness) (b c : Bindings Value) : Prop :=
  List.Forall₂ (EntryAlike L) b.entries c.entries

namespace Bindings

variable {b c : Bindings Value} {n : String} {v u : Value}

theorem names_of_forall₂ : ∀ {es fs : List (String × Value)}, List.Forall₂ (EntryAlike L) es fs →
    fs.map Prod.fst = es.map Prod.fst
  | [], _, all => by
    cases all
    rfl
  | e :: es, _, all => by
    obtain _ | ⟨first, following⟩ := all
    rw [List.map_cons, List.map_cons, first.1, names_of_forall₂ following]

namespace Alike

theorem empty : Bindings.empty.Alike L Bindings.empty := .nil

/-- Both scopes bind the same names, in the same order. -/
theorem names_eq (alike : b.Alike L c) : c.names = b.names := names_of_forall₂ alike

theorem contains_eq (alike : b.Alike L c) (n : String) : c.contains n = b.contains n := by
  rw [Bool.eq_iff_iff, contains_iff, contains_iff, alike.names_eq]

theorem find? (alike : b.Alike L c) (n : String) :
    Option.Rel (Value.Alike L) (b.find? n) (c.find? n) := by
  have within : ∀ {es fs : List (String × Value)}, List.Forall₂ (EntryAlike L) es fs →
      Option.Rel (Value.Alike L) (es.lookup n) (fs.lookup n) := by
    intro es fs all
    induction all with
    | nil => exact .none
    | @cons e f es fs first following ih =>
      obtain ⟨same, value⟩ := first
      rw [List.lookup_cons, List.lookup_cons, same]
      cases n == e.1 with
      | true => exact .some value
      | false => exact ih
  exact within alike

theorem insert (alike : b.Alike L c) (value : v.Alike L u) :
    (b.insert n v).Alike L (c.insert n u) := by
  unfold Bindings.insert
  by_cases bound : b.contains n = true
  · rw [dif_pos bound, dif_pos ((alike.contains_eq n).trans bound)]
    refine List.forall₂_map_left_iff.mpr (List.forall₂_map_right_iff.mpr (alike.imp ?_))
    intro e f first
    by_cases here : e.1 = n
    · rw [if_pos here, if_pos (first.1.trans here)]
      exact ⟨first.1, value⟩
    · rw [if_neg here, if_neg (fun same => here (first.1.symm.trans same))]
      exact first
  · rw [dif_neg bound, dif_neg (fun same => bound ((alike.contains_eq n).symm.trans same))]
    exact List.rel_append alike (.cons ⟨rfl, value⟩ .nil)

theorem single (n : String) (value : v.Alike L u) :
    (Bindings.ofList [(n, v)]).Alike L (.ofList [(n, u)]) := by
  rw [Alike, entries_single, entries_single]
  exact .cons ⟨rfl, value⟩ .nil

/-- Names bound one after the other to values that are alike. -/
theorem ofList_zip : ∀ {names : List String} {vs us : List Value}, Value.AllAlike L vs us →
    (Bindings.ofList (names.zip vs)).Alike L (Bindings.ofList (names.zip us)) := by
  have within : ∀ {names : List String} {vs us : List Value} {b c : Bindings Value},
      Value.AllAlike L vs us → b.Alike L c →
      ((names.zip vs).foldl (fun b e => b.insert e.1 e.2) b).Alike L
        ((names.zip us).foldl (fun b e => b.insert e.1 e.2) c) := by
    intro names
    induction names with
    | nil => exact fun _ alike => alike
    | cons name names ih =>
      intro vs us b c all alike
      obtain _ | ⟨value, all⟩ := all
      · exact alike
      · exact ih all (alike.insert value)
  exact fun {_ _ _} all => within all .empty

end Alike

end Bindings

/-- The same scopes, which bind the same names to values that are alike. -/
structure Heap.AllAlike (L : Likeness) (h k : Heap Value) : Prop where
  size : k.size = h.size
  parents : ∀ s, k.parent? s = h.parent? s
  bindings : ∀ s, (h.bindings s).Alike L (k.bindings s)

namespace Heap.AllAlike

variable {h k : Heap Value} {s : ScopeId} {n : String} {v u : Value}

theorem chain_eq (alike : h.AllAlike L k) (s : ScopeId) : k.chain s = h.chain s := by
  by_cases inside : s < h.size
  · exact chain_of_parents (fun t _ => alike.parents t) inside
  · have alone := parent?_eq_none_of_ge (Nat.le_of_not_lt inside)
    rw [chain_of_no_parent alone, chain_of_no_parent ((alike.parents s).trans alone)]

theorem resolveLocal (alike : h.AllAlike L k) (s : ScopeId) (n : String) :
    Option.Rel (Value.Alike L) (h.resolveLocal s n) (k.resolveLocal s n) :=
  (alike.bindings s).find? n

theorem binds_eq (alike : h.AllAlike L k) (s : ScopeId) (n : String) : k.binds s n = h.binds s n :=
  (alike.bindings s).contains_eq n

theorem owner?_eq (alike : h.AllAlike L k) (s : ScopeId) (n : String) :
    k.owner? s n = h.owner? s n := owner?_congr (alike.chain_eq s) fun t _ => alike.binds_eq t n

/-- A name is found in both heaps or in none. -/
theorem resolve (alike : h.AllAlike L k) (s : ScopeId) (n : String) :
    Option.Rel (Value.Alike L) (h.resolve s n) (k.resolve s n) := by
  rw [resolve_eq_owner?, resolve_eq_owner?, alike.owner?_eq]
  cases h.owner? s n with
  | none => exact .none
  | some t => exact alike.resolveLocal t n

/-- Objects have the same prototypes in both heaps. -/
theorem prototype?_eq (alike : h.AllAlike L k) (m : ScopeId) :
    Value.prototype? k m = Value.prototype? h m := by
  have found := alike.resolveLocal m prototypeName
  unfold Value.prototype?
  revert found
  generalize h.resolveLocal m prototypeName = here
  generalize k.resolveLocal m prototypeName = there
  intro found
  cases found with
  | none => rfl
  | some alike => cases alike <;> rfl

/-- A member is found in both heaps or in none. -/
theorem lookup (alike : h.AllAlike L k) (m : ScopeId) (n : String) :
    Option.Rel (Value.Alike L) (Value.lookup h m n) (Value.lookup k m n) := by
  have within : ∀ (count : Nat) (m : ScopeId),
      Option.Rel (Value.Alike L) (Value.lookupWithin h n count m)
        (Value.lookupWithin k n count m) := by
    intro count
    induction count with
    | zero => exact fun _ => .none
    | succ count ih =>
      intro m
      have found := alike.resolveLocal m n
      rw [Value.lookupWithin, Value.lookupWithin, alike.prototype?_eq]
      revert found
      generalize h.resolveLocal m n = here
      generalize k.resolveLocal m n = there
      intro found
      cases found with
      | some value => exact .some value
      | none =>
        -- Objects are alike only to themselves, so both runs go on with the same prototype.
        cases Value.prototype? h m with
        | none => exact .none
        | some proto => exact ih proto
  unfold Value.lookup
  rw [alike.size]
  exact within _ m

/-! ### Growing and changing -/

private theorem push {parent : Option ScopeId} {b c : Bindings Value} (alike : h.AllAlike L k)
    (bindings : b.Alike L c) (old : ∀ p : Nat, parent = some p → p < h.frames.size)
    (old' : ∀ p : Nat, parent = some p → p < k.frames.size) :
    (h.push ⟨parent, b⟩ old).AllAlike L (k.push ⟨parent, c⟩ old') := by
  have size : (k.push ⟨parent, c⟩ old').size = (h.push ⟨parent, b⟩ old).size := by
    rw [size_push, size_push, alike.size]
  refine ⟨size, fun s => ?_, fun s => ?_⟩
  -- The new scope has the same place in both heaps, since they are of one size.
  · rcases Nat.lt_trichotomy s h.size with before | rfl | behind
    · rw [parent?_push_of_lt _ _ _ before, parent?_push_of_lt _ _ _ (alike.size ▸ before),
        alike.parents]
    · have there := parent?_push_self k ⟨parent, c⟩ old'
      rw [alike.size] at there
      rw [parent?_push_self, there]
    · have out : (h.push ⟨parent, b⟩ old).size ≤ s := by rwa [size_push]
      rw [parent?_eq_none_of_ge out, parent?_eq_none_of_ge (size.trans_le out)]
  · rcases Nat.lt_trichotomy s h.size with before | rfl | behind
    · rw [bindings_push_of_lt _ _ _ before, bindings_push_of_lt _ _ _ (alike.size ▸ before)]
      exact alike.bindings s
    · have there := bindings_push_self k ⟨parent, c⟩ old'
      rw [alike.size] at there
      rw [bindings_push_self, there]
      exact bindings
    · have out : (h.push ⟨parent, b⟩ old).size ≤ s := by rwa [size_push]
      rw [bindings_eq_empty_of_ge out, bindings_eq_empty_of_ge (size.trans_le out)]
      exact .empty

theorem root (alike : h.AllAlike L k) {b c : Bindings Value} (bindings : b.Alike L c) :
    (h.root b).2.AllAlike L (k.root c).2 :=
  alike.push bindings (fun _ none => by cases none) fun _ none => by cases none

theorem child (alike : h.AllAlike L k) (s : ScopeId) {b c : Bindings Value}
    (bindings : b.Alike L c) : (h.child s b).2.AllAlike L (k.child s c).2 := by
  by_cases inside : s < h.size
  · have inside' : s < k.size := alike.size ▸ inside
    rw [child_eq_push inside, child_eq_push inside']
    exact alike.push bindings (fun _ same => Option.some.inj same ▸ inside) fun _ same =>
      Option.some.inj same ▸ inside'
  · rw [child_eq_root inside, child_eq_root (alike.size ▸ inside)]
    exact alike.root bindings

theorem put (alike : h.AllAlike L k) (s : ScopeId) (n : String) (value : v.Alike L u) :
    (h.put s n v).AllAlike L (k.put s n u) := by
  refine ⟨by rw [size_put, size_put, alike.size], fun t => ?_, fun t => ?_⟩
  · rw [parent?_put, parent?_put, alike.parents]
  · by_cases here : s = t
    · subst here
      by_cases inside : s < h.size
      · rw [bindings_put_self inside, bindings_put_self (alike.size ▸ inside)]
        exact (alike.bindings s).insert value
      · have outside := Nat.le_of_not_lt inside
        rw [bindings_eq_empty_of_ge (by rw [size_put]; exact outside),
          bindings_eq_empty_of_ge (by rw [size_put, alike.size]; exact outside)]
        exact .empty
    · rw [bindings_put_of_ne here, bindings_put_of_ne here]
      exact alike.bindings t

end Heap.AllAlike

/-! ## Printed and debugging forms -/

namespace Value

variable {h k : Heap Value}

/-- An object is printed the same in both heaps. -/
theorem displayObject_alike (heaps : h.AllAlike L k) (name : Option String) (members : ScopeId) :
    displayObject k name members = displayObject h name members := by
  have kept : ∀ {es fs : List (String × Value)}, List.Forall₂ (EntryAlike L) es fs →
      (fs.filter fun e => !e.2.isFunction).map (fun e => e.1 ++ ": " ++ brief e.2) =
        (es.filter fun e => !e.2.isFunction).map (fun e => e.1 ++ ": " ++ brief e.2) := by
    intro es fs all
    induction all with
    | nil => rfl
    | @cons e f es fs first following ih =>
      have kind : f.2.isFunction = e.2.isFunction := by
        rw [isFunction, isFunction, first.2.kind_eq]
      rw [List.filter_cons, List.filter_cons, kind]
      split
      · rw [List.map_cons, List.map_cons, ih, first.1, brief_alike first.2]
      · exact ih
  have fields := kept (heaps.bindings members)
  have none := congrArg List.isEmpty fields
  rw [List.isEmpty_map, List.isEmpty_map] at none
  simp only [displayObject, fields, none]

mutual

theorem display_alike (heaps : h.AllAlike L k) : ∀ {v u : Value}, v.Alike L u →
    u.display k = v.display h
  | .iterable vs, u, alike => by
    cases alike with
    | plain data => exact data.elim
    | iterable all => rw [display, display, displayList_alike heaps all]
  | .object name members, u, alike => by
    cases alike with
    | plain data => exact data.elim
    | object => exact displayObject_alike heaps name members
  | .function f, u, alike => by
    cases alike with
    | plain data => exact data.elim
    | builtin f => rfl
    | closure alike => exact brief_alike (.closure alike)
  | .nil, u, alike | .boolean _, u, alike | .integer _, u, alike | .decimal _, u, alike
  | .character _, u, alike | .string _, u, alike => by
    cases alike
    rfl

theorem displayList_alike (heaps : h.AllAlike L k) : ∀ {vs us : List Value}, AllAlike L vs us →
    displayList k us = displayList h vs
  | [], us, all => by
    cases all
    rfl
  | v :: vs, us, all => by
    obtain _ | ⟨alike, all⟩ := all
    rw [displayList, displayList, display_alike heaps alike, displayList_alike heaps all]

end

mutual

theorem layout_alike (heaps : h.AllAlike L k) : ∀ {v u : Value}, v.Alike L u →
    u.layout k = v.layout h
  | .iterable vs, u, alike => by
    cases alike with
    | plain data => exact data.elim
    | iterable all => rw [layout, layout, layoutList_alike heaps all]
  | .object name members, u, alike => by
    cases alike with
    | plain data => exact data.elim
    | object =>
      rw [layout, layout, Heap.nameLayout, Heap.nameLayout, (heaps.bindings members).names_eq]
  | .function f, u, alike => by
    cases alike with
    | plain data => exact data.elim
    | builtin f => rfl
    | closure alike =>
      simp only [layout, Callable.name, Callable.arity?, alike.name_eq, alike.arity_eq]
  | .nil, u, alike | .boolean _, u, alike | .integer _, u, alike | .decimal _, u, alike
  | .character _, u, alike | .string _, u, alike => by
    cases alike
    rfl

theorem layoutList_alike (heaps : h.AllAlike L k) : ∀ {vs us : List Value}, AllAlike L vs us →
    layoutList k us = layoutList h vs
  | [], us, all => by
    cases all
    rfl
  | v :: vs, us, all => by
    obtain _ | ⟨alike, all⟩ := all
    rw [layoutList, layoutList, layout_alike heaps alike, layoutList_alike heaps all]

end

/-! ## Operators -/

/-- Values that are alike are the same to operators. -/
theorem Alike.resembles {v u : Value} (heaps : h.AllAlike L k) (alike : v.Alike L u) :
    v.Resembles h k u where
  kind := alike.kind_eq
  data := alike.eq_or_not_plain.imp_left And.left
  text := display_alike heaps alike

end Value

/-! ## Steps -/

/-- The causes that only the checker keeps a script from. -/
def EvalError.IsLax : EvalError → Prop
  | .badTarget | .returnOutsideFunction => True
  | _ => False

/-- Operators complain of their operands, not of the form of the script. -/
theorem EvalError.OfOperator.not_isLax {cause : EvalError} (operator : cause.OfOperator) :
    ¬cause.IsLax := by
  cases cause <;> first | exact id | exact operator.elim

/-- Heaps that are alike, and the same lines written. -/
structure World.Alike (L : Likeness) (w u : World) : Prop where
  heap : w.heap.AllAlike L u.heap
  output : u.output = w.output

namespace Run

variable {α β : Type} {V : α → α → Prop} {W : β → β → Prop} {x y : Run α} {f g : α → Run β}

/-- Two ends in worlds that are alike: results as `V` says, or faults with one cause at nodes that
correspond to each other. About a step that was stopped for its depth nothing is said. -/
inductive EndsAlike (L : Likeness) (V : α → α → Prop) :
    EStateM.Result Halt World α → EStateM.Result Halt World α → Prop
  | ok {a b : α} {w u : World} : V a b → w.Alike L u → EndsAlike L V (.ok a w) (.ok b u)
  | fault {f g : Located EvalError} {w u : World} : (f.cause.IsLax → L.lax) → g.cause = f.cause →
      Option.Rel L.nodes f.node g.node → w.Alike L u →
      EndsAlike L V (.error (.fault f) w) (.error (.fault g) u)
  | tooDeep {w : World} {r : EStateM.Result Halt World α} : EndsAlike L V (.error .tooDeep w) r

/-- From worlds that are alike, the second step comes to an end like the first one. -/
def InStep (L : Likeness) (V : α → α → Prop) (x y : Run α) : Prop :=
  ∀ ⦃w u : World⦄, w.Alike L u → EndsAlike L V (x w) (y u)

namespace InStep

theorem imp {V' : α → α → Prop} (step : InStep L V x y) (sub : ∀ a b, V a b → V' a b) :
    InStep L V' x y := by
  intro w u alike
  have ends := step alike
  generalize x w = first, y u = second at ends ⊢
  cases ends with
  | ok value worlds => exact .ok (sub _ _ value) worlds
  | fault strict cause nodes worlds => exact .fault strict cause nodes worlds
  | tooDeep => exact .tooDeep

/-- Steps that go on from results that are alike. -/
theorem bind (first : InStep L V x y) (second : ∀ a b, V a b → InStep L W (f a) (g b)) :
    InStep L W (x >>= f) (y >>= g) := by
  intro w u alike
  have ends := first alike
  simp only [Bind.bind, EStateM.bind]
  generalize x w = first, y u = second at ends ⊢
  cases ends with
  | ok value worlds => exact second _ _ value worlds
  | fault strict cause nodes worlds => exact .fault strict cause nodes worlds
  | tooDeep => exact .tooDeep

/-- The first steps have the same result. -/
theorem bind_eq (first : InStep L Eq x y) (second : ∀ a, InStep L W (f a) (g a)) :
    InStep L W (x >>= f) (y >>= g) :=
  first.bind fun a _ same => same ▸ second a

theorem pure {a b : α} (value : V a b) : InStep L V (Pure.pure a) (Pure.pure b) :=
  fun _ _ alike => .ok value alike

theorem tooDeep : InStep L V (throw .tooDeep) y := fun _ _ _ => .tooDeep

theorem fail {cause : EvalError} (strict : ¬cause.IsLax) :
    InStep L V (Run.fail cause) (Run.fail cause) :=
  fun _ _ alike => .fault (fun lax => (strict lax).elim) rfl .none alike

theorem fail_bind {cause : EvalError} (strict : ¬cause.IsLax) :
    InStep L W (Run.fail cause >>= f) (Run.fail cause >>= g) :=
  bind (V := fun _ _ => False) (fail strict) fun _ _ => False.elim

theorem failAt {cause : EvalError} {n m : NodeRef} (nodes : L.nodes n m)
    (strict : cause.IsLax → L.lax) : InStep L V (Run.failAt n cause) (Run.failAt m cause) :=
  fun _ _ alike => .fault strict rfl (.some nodes) alike

/-- Faults that belong to no node yet are put at nodes that correspond. -/
theorem located {n m : NodeRef} (nodes : L.nodes n m) (step : InStep L V x y) :
    InStep L V (Run.located n x) (Run.located m y) := by
  intro w u alike
  have ends := step alike
  unfold Run.located
  generalize x w = first, y u = second at ends ⊢
  cases ends with
  | ok value worlds => exact .ok value worlds
  | tooDeep => exact .tooDeep
  | @fault f g _ _ strict cause attributed worlds =>
    refine .fault (by simpa using strict) (by simpa using cause) ?_ worlds
    rw [Located.node_located, Located.node_located]
    generalize f.node = first, g.node = second at attributed
    -- Nodes that have been put there further inside correspond already.
    cases attributed with
    | none => exact .some nodes
    | some within => exact .some within

theorem read {question question' : Heap Value → α}
    (answers : ∀ h k, h.AllAlike L k → V (question h) (question' k)) :
    InStep L V (Run.read question) (Run.read question') :=
  fun _ _ alike => .ok (answers _ _ alike.heap) alike

/-- One operation whose result both heaps agree on. -/
theorem rule {result result' : Heap Value → Except EvalError α}
    (same : ∀ h k, h.AllAlike L k → result' k = result h)
    (ok : ∀ h a, result h = .ok a → V a a)
    (error : ∀ h cause, result h = .error cause → ¬cause.IsLax) :
    InStep L V (Run.rule result) (Run.rule result') := by
  intro w u alike
  unfold Run.rule
  rw [same _ _ alike.heap]
  cases judged : result w.heap with
  | ok a => exact .ok (ok _ _ judged) alike
  | error cause => exact .fault (fun lax => (error _ _ judged lax).elim) rfl .none alike

theorem child (s : ScopeId) {b c : Bindings Value} (bindings : b.Alike L c) :
    InStep L Eq (Run.child s b) (Run.child s c) := by
  intro w u alike
  have same : (w.heap.child s b).1 = (u.heap.child s c).1 := by
    rw [Heap.child_fst, Heap.child_fst, alike.heap.size]
  exact .ok same ⟨alike.heap.child s bindings, alike.output⟩

theorem root : InStep L Eq Run.root Run.root :=
  fun _ _ alike => .ok alike.heap.size.symm ⟨alike.heap.root .empty, alike.output⟩

variable {s : ScopeId} {name : String} {v u : Value}

theorem put (value : v.Alike L u) : InStep L Eq (Run.put s name v) (Run.put s name u) :=
  fun _ _ alike => .ok rfl ⟨alike.heap.put s name value, alike.output⟩

/-- The name is bound in both heaps, or free in both. -/
theorem define {cause : EvalError} (value : v.Alike L u) (strict : ¬cause.IsLax) :
    InStep L Eq (Run.define s name v cause) (Run.define s name u cause) := by
  refine .bind_eq (.read fun h k alike => (alike.binds_eq s name).symm) fun bound => ?_
  cases bound with
  | true => exact .fail strict
  | false => exact .put value

theorem write (line : String) : InStep L Eq (Run.write line) (Run.write line) :=
  fun _ _ alike => .ok rfl ⟨alike.heap, congrArg (·.push line) alike.output⟩

end InStep

end Run

end GradualScript
