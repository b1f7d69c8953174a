/-
# GradualScript.Proofs.Ty.Inheritance -- a subtype has the members of its supertypes

Subtyping and the search for members walk along the same prototypes, but they stop for different
reasons: subtyping at the object type that it looks for, or at a `Dynamic` prototype in place of an
object without members; the search at the first object that has the member, at a `Dynamic` prototype
with a member of type `Dynamic`, or at any other end without one. They agree in what matters to code
that takes a value for one of a supertype: each member that it counts on is there.

A member of the supertype is also the same one, unless an object before the supertype overrides it.
Both hold for the member `prototype` itself, which is the link that the walks follow: an object that
has a prototype overrides it.
-/

import GradualScript.Proofs.Ty.Order

namespace GradualScript.Ty

variable {h : Heap Ty} {m : ScopeId} {n : String} {name : Option String}

/-! ## The search for a member -/

/-- Where no object is linked, a member is found only if the prototype is `Dynamic`. -/
def lastMember (h : Heap Ty) (m : ScopeId) : Option Ty :=
  match prototype? h m with
  | some .dynamic => some .dynamic
  | _ => none

theorem searches_lookup (h : Heap Ty) (n : String) :
    h.Searches (nextObject? h) n (lastMember h) (lookup h · n) where
  bound := by
    intro m t own
    obtain ⟨k, size⟩ := Heap.exists_size_eq own
    simp only [lookup, size, lookupWithin, own]
  further := by
    intro m p ends own next
    obtain ⟨name, link⟩ := nextObject?_eq_some_iff.mp next
    -- One more step than the heap has scopes changes nothing, and the first step leads to `p`.
    have within := endsWithin_of_acc (ends_nextObject?_iff.mp ends)
    have longer : lookupWithin h n (h.size + 1) m = lookupWithin h n h.size m :=
      lookupWithin_of_endsWithin within (Nat.le_succ h.size)
    show lookupWithin h n h.size m = lookupWithin h n h.size p
    rw [← longer, lookupWithin, own, link]
  ended := by
    intro m own next
    show lookupWithin h n h.size m = lastMember h m
    cases size : h.size with
    | zero =>
      have empty := Heap.bindings_eq_empty_of_ge (h := h) (s := m) (size ▸ Nat.zero_le m)
      simp [lookupWithin, lastMember, prototype?, Heap.resolveLocal, empty]
    | succ k =>
      rw [lookupWithin, own, lastMember]
      cases link : prototype? h m with
      | none => rfl
      | some t =>
        cases t with
        | object name p =>
          rw [nextObject?_eq_some_iff.mpr ⟨name, link⟩] at next
          cases next
        | prim p => cases p <;> rfl
        | function params returns => rfl

/-- An object without members has no prototype either, so nothing is found from it. -/
theorem lookup_of_isEmpty (empty : (h.bindings m).isEmpty = true) : lookup h m n = none := by
  rw [Bindings.isEmpty, List.isEmpty_iff] at empty
  have unbound (k : String) : h.resolveLocal m k = none := by
    rw [Heap.resolveLocal, Bindings.find?, empty, List.lookup_nil]
  have last : prototype? h m = none := unbound prototypeName
  have found := (searches_lookup h n).ended (unbound n) (by rw [nextObject?, last])
  rw [found, lastMember, last]

/-! ## Members of a subtype -/

/-- An object has each member that its prototype has. -/
theorem isSome_lookup_of_link {p : ScopeId} (ends : Acc (Links h) m)
    (link : prototype? h m = some (.object name p)) (inherited : (lookup h p n).isSome) :
    (lookup h m n).isSome := by
  have search := searches_lookup h n
  cases own : h.resolveLocal m n with
  | some t =>
    rw [search.bound own]
    rfl
  | none =>
    rw [search.further (ends_nextObject?_iff.mpr ends) own
      (nextObject?_eq_some_iff.mpr ⟨name, link⟩)]
    exact inherited

/-- So it has each member that is found from an object type that its prototypes lead to. -/
theorem isSome_lookup_of_inherits {upper : Option String × ScopeId} (ends : Acc (Links h) m)
    (found : Inherits h upper m) (has : (lookup h upper.2 n).isSome) : (lookup h m n).isSome := by
  induction found with
  | reached link => exact isSome_lookup_of_link ends link has
  | further link _ ih => exact isSome_lookup_of_link ends link (ih (ends.inv ⟨_, link⟩))
  | opened _ empty =>
    -- What a `Dynamic` prototype stands for has no members to lose.
    rw [lookup_of_isEmpty empty] at has
    cases has

theorem eq_or_inherits_of_isSubtype {name' : Option String} {a b : ScopeId}
    (sub : (Ty.object name a).isSubtype h (.object name' b) = true) :
    a = b ∨ Inherits h (name', b) a := by
  simp only [isSubtype, Bool.or_eq_true, beq_iff_eq, Ty.object.injEq, reduceCtorEq, or_false]
    at sub
  rcases sub with same | found
  · exact Or.inl same.2
  · exact Or.inr (inherits_of_inheritsWithin found)

/-- For object types with the members `a` and `b`, if the prototype chain from `a` ends: if the
first is a subtype of the second, then each member that is found from `b` is found from `a`. If the
chain from `a` leads to `b` and no object before `b` has a member `n` of its own, `a` among them,
then what is found for `n` from both is the same. -/
theorem members_inherited (h : Heap Ty) {a : ScopeId} (ends : Acc (Links h) a) (b : ScopeId)
    (n : String) :
    (∀ name name', (Ty.object name a).isSubtype h (.object name' b) = true →
      (lookup h b n).isSome → (lookup h a n).isSome) ∧
    (h.Reaches (nextObject? h) n b a → lookup h a n = lookup h b n) := by
  constructor
  · intro name name' sub has
    rcases eq_or_inherits_of_isSubtype sub with rfl | found
    · exact has
    · exact isSome_lookup_of_inherits ends found has
  · intro reaches
    exact (searches_lookup h n).eq_of_reaches (ends_nextObject?_iff.mpr ends) reaches

/-- An object with two members, one with that object for its prototype that overrides one of them,
and one with that for its prototype. -/
def familyScript : Script :=
  ⟨[⟨default, .letVar ⟨"base", none, some ⟨default, .object (some "Base")
      [⟨default, ⟨"x", none, some ⟨default, .literal (.integer 1)⟩⟩⟩,
        ⟨default, ⟨"y", none, some ⟨default, .literal (.integer 2)⟩⟩⟩] []⟩⟩⟩,
    ⟨default, .letVar ⟨"middle", none, some ⟨default, .object (some "Middle")
      [⟨default, ⟨"prototype", none, some ⟨default, .variable "base"⟩⟩⟩,
        ⟨default, ⟨"y", none, some ⟨default, .literal (.boolean true)⟩⟩⟩] []⟩⟩⟩,
    ⟨default, .letVar ⟨"leaf", none, some ⟨default, .object (some "Leaf")
      [⟨default, ⟨"prototype", none, some ⟨default, .variable "middle"⟩⟩⟩] []⟩⟩⟩]⟩

/-- The last object (scope 3) has both members; that of the name `x` is the one of the first object
(scope 1). -/
theorem members_inherited_familyScript :
    ∃ h, h = (familyScript.check false).2 ∧ Acc (Links h) 3 ∧
      (Ty.object (some "Leaf") 3).isSubtype h (.object (some "Base") 1) = true ∧
      (lookup h 1 "y").isSome ∧ (lookup h 3 "y").isSome ∧
      lookup h 1 "x" = some .integer ∧ lookup h 3 "x" = lookup h 1 "x" := by
  have ends : Acc (Links (familyScript.check false).2) 3 :=
    ((CheckSession.start_founded false).check familyScript).links.apply 3
  have sub : (Ty.object (some "Leaf") 3).isSubtype (familyScript.check false).2
      (.object (some "Base") 1) = true := by decide
  have has : (lookup (familyScript.check false).2 1 "y").isSome := by decide
  have reaches : (familyScript.check false).2.Reaches (nextObject? (familyScript.check false).2)
      "x" 1 3 :=
    .further (p := 2) (by decide) (by decide) (.further (p := 1) (by decide) (by decide) .here)
  exact ⟨_, rfl, ends, sub, has, (members_inherited _ ends 1 "y").1 _ _ sub has, by decide,
    (members_inherited _ ends 1 "x").2 reaches⟩

end GradualScript.Ty
