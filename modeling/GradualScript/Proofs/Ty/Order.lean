/-
# GradualScript.Proofs.Ty.Order -- subtyping is an order, away from `Dynamic`

Everything is below `Dynamic` and above it, so subtyping is not transitive through `Dynamic`. Among
all other types it is a partial order with `Any` on top, as long as prototype chains end.

`isSubtype` stops at the first of its rules that applies, and searches a chain for as many steps as
the heap has scopes. `Below` has the same rules in no order, with the search as an inductive
relation (`Inherits`): a chain reaches an object type, or comes to a `Dynamic` prototype, which
stands for any object without members. Two searches compose because such an object has no prototype
to go on from.
-/

import GradualScript.Proofs.Check.Prototypes

namespace GradualScript

/-! ## Primitive types -/

namespace Primitive

theorem below_trans {p q r : Primitive} (first : p.below q = true) (second : q.below r = true) :
    p.below r = true := by
  have table : ∀ p ∈ all, ∀ q ∈ all, ∀ r ∈ all,
      p.below q = true → q.below r = true → p.below r = true := by
    decide
  exact table p (mem_all p) q (mem_all q) r (mem_all r) first second

theorem below_irrefl (p : Primitive) : p.below p = false := by cases p <;> rfl

end Primitive

namespace Ty

variable {h : Heap Ty} {m : ScopeId} {upper higher : Option String × ScopeId} {a b c : Ty}

/-! ## Searching a chain -/

/-- The object type `upper` is found along the prototypes of the object with members `m`. -/
inductive Inherits (h : Heap Ty) (upper : Option String × ScopeId) : ScopeId → Prop
  | reached {m : ScopeId} (link : prototype? h m = some (.object upper.1 upper.2)) :
      Inherits h upper m
  | further {m p : ScopeId} {name : Option String} (link : prototype? h m = some (.object name p))
      (rest : Inherits h upper p) : Inherits h upper m
  | opened {m : ScopeId} (link : prototype? h m = some .dynamic)
      (empty : (h.bindings upper.2).isEmpty = true) : Inherits h upper m

/-- An object without members has no prototype to look along. -/
theorem not_inherits_of_isEmpty (empty : (h.bindings m).isEmpty = true) : ¬Inherits h upper m := by
  rw [Bindings.isEmpty, List.isEmpty_iff] at empty
  have none : prototype? h m = none := by
    rw [prototype?, Heap.resolveLocal, Bindings.find?, empty, List.lookup_nil]
  rintro (link | ⟨link, _⟩ | ⟨link, _⟩) <;> (rw [none] at link; cases link)

theorem inherits_of_inheritsWithin :
    ∀ {n : Nat} {m : ScopeId}, inheritsWithin h upper n m = true → Inherits h upper m
  | 0, _, found => by cases found
  | n + 1, m, found => by
    rw [inheritsWithin] at found
    split at found
    case h_1 name p link =>
      rcases Bool.or_eq_true_iff.mp found with here | later
      · obtain rfl := eq_of_beq here
        exact .reached link
      · exact .further link (inherits_of_inheritsWithin later)
    case h_2 link => exact .opened link found
    case h_3 => cases found

namespace Inherits

/-- What is found is found within some number of steps, and then within any greater number. -/
theorem exists_steps (found : Inherits h upper m) :
    ∃ n, ∀ k, n ≤ k → inheritsWithin h upper k m = true := by
  induction found with
  | reached link =>
    refine ⟨1, fun k le => ?_⟩
    obtain ⟨k, rfl⟩ := Nat.exists_eq_add_of_le' le
    rw [inheritsWithin, link]
    simp
  | further link _ ih =>
    obtain ⟨n, steps⟩ := ih
    refine ⟨n + 1, fun k le => ?_⟩
    obtain ⟨k, rfl⟩ := Nat.exists_eq_add_of_le' (Nat.le_trans (Nat.le_add_left 1 n) le)
    rw [inheritsWithin, link]
    simp only [steps k (Nat.le_of_succ_le_succ le), Bool.or_true]
  | opened link empty =>
    refine ⟨1, fun k le => ?_⟩
    obtain ⟨k, rfl⟩ := Nat.exists_eq_add_of_le' le
    rw [inheritsWithin, link]
    exact empty

theorem trans (first : Inherits h upper m) (second : Inherits h higher upper.2) :
    Inherits h higher m := by
  induction first with
  | reached link => exact .further link second
  | further link _ ih => exact .further link ih
  | opened link empty =>
    -- The object in the middle has no members, so nothing is found from it.
    exact absurd second (not_inherits_of_isEmpty empty)

/-- What is found along object types is linked; what a `Dynamic` prototype stands for is empty. -/
theorem linked_or_empty (found : Inherits h upper m) :
    Relation.TransGen (Links h) upper.2 m ∨ (h.bindings upper.2).isEmpty = true := by
  induction found with
  | reached link => exact Or.inl (.single ⟨_, link⟩)
  | further link _ ih => exact ih.imp_left fun linked => .tail linked ⟨_, link⟩
  | opened link empty => exact Or.inr empty

/-- No object type is found along its own prototypes. -/
theorem irrefl (ends : WellFounded (Links h)) : ¬Inherits h upper upper.2 := by
  intro found
  rcases found.linked_or_empty with linked | empty
  · exact ends.transGen.irrefl.irrefl upper.2 linked
  · exact not_inherits_of_isEmpty empty found

end Inherits

/-- The bounded search is exact if chains end. -/
theorem inherits_iff (ends : WellFounded (Links h)) :
    inherits h m upper = true ↔ Inherits h upper m := by
  refine ⟨inherits_of_inheritsWithin, fun found => ?_⟩
  obtain ⟨n, steps⟩ := found.exists_steps
  have enough := steps (max n h.size) (Nat.le_max_left n h.size)
  rwa [inheritsWithin_of_endsWithin (wellFounded_iff.mp ends m)
    (Nat.le_max_right n h.size)] at enough

/-! ## The rules -/

/-- The rules of subtyping that do not speak of `Dynamic`. -/
inductive Below (h : Heap Ty) : Ty → Ty → Prop
  | refl (a : Ty) : Below h a a
  | any (a : Ty) : Below h a .any
  | prim {p q : Primitive} (below : p.below q = true) : Below h (.prim p) (.prim q)
  | object {name : Option String} {m : ScopeId} {upper : Option String × ScopeId}
      (found : Inherits h upper m) : Below h (.object name m) (.object upper.1 upper.2)

/-- Away from `Dynamic`, a type is a subtype of another exactly by these rules. -/
theorem isSubtype_iff_below (ends : WellFounded (Links h)) (static : a ≠ .dynamic)
    (static' : b ≠ .dynamic) : a.isSubtype h b = true ↔ Below h a b := by
  simp only [isSubtype, Bool.or_eq_true, beq_iff_eq, static, static', or_false]
  constructor
  · rintro ((rfl | rfl) | ruled)
    · exact .refl a
    · exact .any a
    · split at ruled
      · exact .prim ruled
      · exact .object ((inherits_iff ends).mp ruled)
      · cases ruled
  · rintro (_ | _ | ⟨below⟩ | ⟨found⟩)
    · exact Or.inl (Or.inl rfl)
    · exact Or.inl (Or.inr rfl)
    · exact Or.inr below
    · exact Or.inr ((inherits_iff ends).mpr found)

namespace Below

theorem trans (first : Below h a b) (second : Below h b c) : Below h a c := by
  cases second with
  | refl => exact first
  | any => exact .any a
  | prim upward =>
    cases first with
    | refl => exact .prim upward
    | any => cases upward
    | prim below => exact .prim (Primitive.below_trans below upward)
  | object further =>
    cases first with
    | refl => exact .object further
    | object found => exact .object (found.trans further)

theorem antisymm (ends : WellFounded (Links h)) (first : Below h a b) (second : Below h b a) :
    a = b := by
  cases first with
  | refl => rfl
  | any =>
    cases second with
    | refl => rfl
    | any => rfl
    | prim below => cases below
  | prim upward =>
    cases second with
    | refl => rfl
    | any => cases upward
    | prim downward =>
      have cycle := Primitive.below_trans upward downward
      rw [Primitive.below_irrefl] at cycle
      cases cycle
  | object found =>
    cases second with
    | refl => rfl
    | object back => exact absurd (back.trans found) (Inherits.irrefl ends)

end Below

/-! ## The order -/

/-- In every heap in which prototype chains end, whatever the names of its object types are:
subtyping is reflexive, `Dynamic` is below and above everything, `Any` is above everything, and
among the types other than `Dynamic` subtyping is transitive and antisymmetric. -/
theorem ordered_away_from_dynamic (h : Heap Ty) (ends : WellFounded (Links h)) :
    (∀ a : Ty, a.isSubtype h a = true) ∧
    (∀ a : Ty, Ty.dynamic.isSubtype h a = true ∧ a.isSubtype h .dynamic = true) ∧
    (∀ a : Ty, a.isSubtype h .any = true) ∧
    (∀ a b c : Ty, a ≠ .dynamic → b ≠ .dynamic → c ≠ .dynamic →
      a.isSubtype h b = true → b.isSubtype h c = true → a.isSubtype h c = true) ∧
    (∀ a b : Ty, a ≠ .dynamic → b ≠ .dynamic →
      a.isSubtype h b = true → b.isSubtype h a = true → a = b) := by
  refine ⟨fun a => ?_, fun a => ⟨?_, ?_⟩, fun a => ?_, fun a b c sa sb sc first second => ?_,
    fun a b sa sb first second => ?_⟩
  · simp [isSubtype]
  · simp [isSubtype]
  · simp [isSubtype]
  · simp [isSubtype]
  · rw [isSubtype_iff_below ends sa sb] at first
    rw [isSubtype_iff_below ends sb sc] at second
    rw [isSubtype_iff_below ends sa sc]
    exact first.trans second
  · rw [isSubtype_iff_below ends sa sb] at first
    rw [isSubtype_iff_below ends sb sa] at second
    exact first.antisymm ends second

/-- An object with a `Dynamic` prototype, an object with that one for its prototype, and an object
without members. -/
def openChainScript : Script :=
  ⟨[⟨default, .letVar ⟨"opened", none, some ⟨default, .object (some "Opened")
      [⟨default, ⟨"prototype", some "Dynamic", none⟩⟩] []⟩⟩⟩,
    ⟨default, .letVar ⟨"derived", none, some ⟨default, .object (some "Derived")
      [⟨default, ⟨"prototype", none, some ⟨default, .variable "opened"⟩⟩⟩] []⟩⟩⟩,
    ⟨default, .letVar ⟨"blank", none, some ⟨default, .object (some "Blank") [] []⟩⟩⟩]⟩

/-- The types of the three objects, after the check. -/
theorem ordered_away_from_dynamic_openChain :
    ∃ h, h = (openChainScript.check false).2 ∧ WellFounded (Links h) ∧
      h.resolve 0 "derived" = some (.object (some "Derived") 2) ∧
      (Ty.object (some "Derived") 2).isSubtype h (.object (some "Opened") 1) = true ∧
      (Ty.object (some "Opened") 1).isSubtype h (.object (some "Blank") 3) = true ∧
      (Ty.object (some "Derived") 2).isSubtype h (.object (some "Blank") 3) = true := by
  have ends : WellFounded (Links (openChainScript.check false).2) :=
    ((CheckSession.start_founded false).check openChainScript).links
  have first : (Ty.object (some "Derived") 2).isSubtype (openChainScript.check false).2
      (.object (some "Opened") 1) = true := by decide
  have second : (Ty.object (some "Opened") 1).isSubtype (openChainScript.check false).2
      (.object (some "Blank") 3) = true := by decide
  exact ⟨_, rfl, ends, by decide, first, second,
    (ordered_away_from_dynamic _ ends).2.2.2.1 _ _ _ (by simp) (by simp) (by simp) first second⟩

end Ty

end GradualScript
