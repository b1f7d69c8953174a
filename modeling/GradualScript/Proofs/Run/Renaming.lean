/-
# GradualScript.Proofs.Run.Renaming -- which number a scope has does not matter

A scope is named by its place in the heap. When the same object is made at two times, its members
are different scopes, and with them the values that refer to them are different. They differ in
names only: there is a renaming of scopes that leads from the one heap to the other
(`Heap.Renames`).

The evaluator asks its values for their kinds, for their printed forms and whether they are equal,
and it asks the heap for members. The answers to these questions are the same in both heaps, or the
renamed ones, as long as the renaming keeps different scopes apart. A search for a member is given
up after as many steps as the heap has scopes, and the two heaps may be of different sizes. This
makes no difference, since what is found at all is found in as many steps as the smaller one has
scopes.
-/

import GradualScript.Proofs.Run.Sequences
import GradualScript.Proofs.Run.Writes

namespace GradualScript

variable {ρ : ScopeId → ScopeId} {h k : Heap Value} {s m : ScopeId} {n : String} {v u : Value}

/-! ## Values -/

namespace Value

/-- The value with other scopes in the place of its own. Sequences are left as they are, because
they hold integers. -/
def renamed (ρ : ScopeId → ScopeId) : Value → Value
  | .function (.closure f) => .function (.closure { f with captured := ρ f.captured })
  | .object name members => .object name (ρ members)
  | v => v

@[simp] theorem kind_renamed (v : Value) : (v.renamed ρ).kind = v.kind := by
  cases v with
  | function f => cases f <;> rfl
  | _ => rfl

theorem renamed_of_isPlain (plain : v.IsPlain) : v.renamed ρ = v := by
  cases v <;> first | rfl | exact plain.elim

/-- Plain data is not changed, and nothing else becomes plain data. -/
theorem renamed_eq_or_not_plain (v : Value) :
    v.renamed ρ = v ∨ ¬v.IsPlain ∧ ¬(v.renamed ρ).IsPlain := by
  cases v with
  | function f => cases f <;> exact Or.inr ⟨id, id⟩
  | object name members => exact Or.inr ⟨id, id⟩
  | _ => exact Or.inl rfl

/-- Values are equal exactly if they are still equal when different scopes have got different
names. -/
theorem equals_renamed (apart : Function.Injective ρ) (v u : Value) :
    (v.renamed ρ).equals (u.renamed ρ) = v.equals u := by
  have scopes : ∀ a b : ScopeId, (ρ a == ρ b) = (a == b) := fun a b => by
    rw [Bool.eq_iff_iff, beq_iff_eq, beq_iff_eq, apart.eq_iff]
  cases v with
  | function f =>
    cases u with
    | function g =>
      cases f <;> cases g <;> first
        | rfl
        | simp only [renamed, equals, Callable.equals, scopes]
    | _ => cases f <;> rfl
  | object name members =>
    cases u with
    | function g => cases g <;> rfl
    | object name' members' => simp only [renamed, equals, scopes]
    | _ => rfl
  | _ =>
    cases u with
    | function g => cases g <;> rfl
    | _ => rfl

@[simp] theorem brief_renamed (v : Value) : (v.renamed ρ).brief = v.brief := by
  cases v with
  | function f => cases f <;> rfl
  | _ => rfl

end Value

/-! ## Heaps -/

/-- The heap `k` binds in the scope `ρ s` the names that `h` binds in `s`, in the same order, to the
renamed values. It may have more scopes than these. -/
structure Heap.Renames (ρ : ScopeId → ScopeId) (h k : Heap Value) : Prop where
  size_le : h.size ≤ k.size
  entries : ∀ s, (k.bindings (ρ s)).entries =
    (h.bindings s).entries.map fun e => (e.1, e.2.renamed ρ)

namespace Heap.Renames

theorem resolveLocal (renames : h.Renames ρ k) (s : ScopeId) (n : String) :
    k.resolveLocal (ρ s) n = (h.resolveLocal s n).map (Value.renamed ρ) := by
  rw [Heap.resolveLocal, Bindings.find?, renames.entries, lookup_map_values]
  rfl

theorem binds (renames : h.Renames ρ k) (s : ScopeId) (n : String) :
    k.binds (ρ s) n = h.binds s n := by
  rw [Bool.eq_iff_iff, binds_iff_isSome, binds_iff_isSome, renames.resolveLocal, Option.isSome_map]

theorem prototype? (renames : h.Renames ρ k) (m : ScopeId) :
    Value.prototype? k (ρ m) = (Value.prototype? h m).map ρ := by
  rw [Value.prototype?, Value.prototype?, renames.resolveLocal]
  cases h.resolveLocal m prototypeName with
  | none => rfl
  | some v =>
    cases v with
    | function f => cases f <;> rfl
    | _ => rfl

theorem lookupWithin (renames : h.Renames ρ k) (n : String) :
    ∀ (count : Nat) (m : ScopeId), Value.lookupWithin k n count (ρ m) =
      (Value.lookupWithin h n count m).map (Value.renamed ρ)
  | 0, _ => rfl
  | count + 1, m => by
    rw [Value.lookupWithin, Value.lookupWithin, renames.resolveLocal, renames.prototype?]
    cases h.resolveLocal m n with
    | some v => rfl
    | none =>
      cases Value.prototype? h m with
      | none => rfl
      | some proto => exact renames.lookupWithin n count proto

/-- A member is found in `k` exactly if it is found in `h`, however many steps may be taken
there. -/
theorem lookup (renames : h.Renames ρ k) (m : ScopeId) (n : String) :
    Value.lookup k (ρ m) n = (Value.lookup h m n).map (Value.renamed ρ) := by
  rw [Value.lookup, renames.lookupWithin, Value.lookupWithin_eq_lookup renames.size_le]

theorem displayObject (renames : h.Renames ρ k) (name : Option String) (m : ScopeId) :
    Value.displayObject k name (ρ m) = Value.displayObject h name m := by
  have fields : ((k.bindings (ρ m)).entries.filter fun e => !e.2.isFunction) =
      ((h.bindings m).entries.filter fun e => !e.2.isFunction).map
        fun e => (e.1, e.2.renamed ρ) := by
    rw [renames.entries, List.filter_map]
    simp only [Function.comp_def, Value.isFunction, Value.kind_renamed]
  rw [Value.displayObject, Value.displayObject, fields, List.map_map, List.isEmpty_map]
  simp only [Function.comp_def, Value.brief_renamed]

theorem display (renames : h.Renames ρ k) (flat : v.IsFlat) :
    (v.renamed ρ).display k = v.display h := by
  cases v with
  | iterable vs =>
    have integers : ∀ v ∈ vs, v.display k = v.display h := by
      intro v mem
      obtain ⟨n, rfl⟩ := flat v mem
      rfl
    show (Value.iterable vs).display k = _
    rw [Value.display, Value.display, Value.displayList_eq_map, Value.displayList_eq_map,
      List.map_congr_left integers]
  | object name members => exact renames.displayObject name members
  | function f => cases f <;> rfl
  | _ => rfl

/-- Operators do not tell a value from the renamed one. -/
theorem resembles (renames : h.Renames ρ k) (flat : v.IsFlat) : v.Resembles h k (v.renamed ρ) where
  kind := v.kind_renamed
  data := v.renamed_eq_or_not_plain
  text := renames.display flat

end Heap.Renames

end GradualScript
