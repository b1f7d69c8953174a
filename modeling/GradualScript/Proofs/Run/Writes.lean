/-
# GradualScript.Proofs.Run.Writes -- what the assignment of a property changes

An assignment to a property gives the member to the receiver itself, also if the receiver has it
from a prototype only: then the inherited member is shadowed and not changed. So one scope changes.
Who sees the change is another matter, since an object is seen through every object that has it on
its prototype chain. A member is found in the first object of the chain that has it, so the write is
seen from an object exactly if its chain comes to the receiver before any other object that has the
member itself (`Value.Written`).

The links of the chains are members too. An assignment to `prototype` may lead the chain of the
receiver anywhere, also back to itself, and is left out of the last statement.
-/

import GradualScript.Proofs.Scope.Links
import GradualScript.Proofs.Run.Ends
import GradualScript.Session

namespace GradualScript

namespace Value

variable {h h' : Heap Value} {m o x : ScopeId} {p q : String} {v : Value}

/-! ## The search for a member -/

theorem prototype?_eq_some_iff {proto : ScopeId} : prototype? h m = some proto ↔
      ∃ name, h.resolveLocal m prototypeName = some (.object name proto) := by
  unfold prototype?
  constructor
  · intro link
    split at link
    case h_1 name p found => exact ⟨name, Option.some.inj link ▸ found⟩
    case h_2 => cases link
  · rintro ⟨name, found⟩
    rw [found]

theorem lt_size_of_prototype? {proto : ScopeId} (link : prototype? h m = some proto) :
    m < h.size := by
  obtain ⟨name, found⟩ := prototype?_eq_some_iff.mp link
  exact Heap.lt_size_of_resolveLocal found

theorem prototype?_eq_none_of_ge (out : h.size ≤ m) : prototype? h m = none := by
  cases link : prototype? h m with
  | none => rfl
  | some proto => exact absurd (lt_size_of_prototype? link) (Nat.not_lt.mpr out)

/-- The links that a search for `q` follows: it goes no further than an object that has `q`
itself. -/
def linkPast (h : Heap Value) (q : String) (m : ScopeId) : Option ScopeId :=
  if h.resolveLocal m q = none then prototype? h m else none

theorem linkPast_of_none (own : h.resolveLocal m q = none) :
    linkPast h q m = prototype? h m := if_pos own

theorem prototype?_of_linkPast {proto : ScopeId} (link : linkPast h q m = some proto) :
    h.resolveLocal m q = none ∧ prototype? h m = some proto := by
  rw [linkPast] at link
  split at link
  case isTrue own => exact ⟨own, link⟩
  case isFalse => cases link

/-- A search that comes to its end within `n` objects takes `n` steps. -/
theorem lookupWithin_of_endsWithin :
    ∀ {n k : Nat} {m : ScopeId}, Walk.EndsWithin (linkPast h q) h.size n m → n ≤ k →
      lookupWithin h q k m = lookupWithin h q n m
  | 0, 0, _, _, _ => rfl
  | 0, k + 1, m, out, _ => by
    have unbound : h.resolveLocal m q = none := by
      rw [Heap.resolveLocal, Heap.bindings_eq_empty_of_ge out, Bindings.find?_empty]
    simp only [lookupWithin, unbound, prototype?_eq_none_of_ge out]
  | n + 1, k + 1, m, ends, le => by
    rw [lookupWithin, lookupWithin]
    cases own : h.resolveLocal m q with
    | some v => rfl
    | none =>
      cases link : prototype? h m with
      | none => rfl
      | some proto =>
        have ends := ends proto ((linkPast_of_none own).trans link)
        exact lookupWithin_of_endsWithin ends (Nat.le_of_succ_le_succ le)

/-- A search that finds something has come to its end, whatever the links behind it are. -/
theorem ends_linkPast_of_found : ∀ {k : Nat} {m : ScopeId}, lookupWithin h q k m = some v →
    Walk.Ends (linkPast h q) m
  | 0, _, found => by cases found
  | k + 1, m, found => by
    refine .intro m fun proto past => ?_
    obtain ⟨own, link⟩ := prototype?_of_linkPast past
    rw [lookupWithin, own, link] at found
    exact ends_linkPast_of_found found

/-- As many steps as the heap has scopes are enough for every chain, also for a cyclic one: what is
not found by then is found in no number of steps. -/
theorem lookupWithin_eq_lookup {k : Nat} (le : h.size ≤ k) (m : ScopeId) (q : String) :
    lookupWithin h q k m = lookup h m q := by
  have enough (ends : Walk.Ends (linkPast h q) m) : lookupWithin h q k m = lookup h m q :=
    lookupWithin_of_endsWithin (ends.endsWithin fun _ _ past =>
      lt_size_of_prototype? (prototype?_of_linkPast past).2) le
  cases found : lookupWithin h q k m with
  | some v => exact found.symm.trans (enough (ends_linkPast_of_found found))
  | none =>
    cases found' : lookup h m q with
    | some v =>
      rw [enough (ends_linkPast_of_found found'), found'] at found
      cases found
    | none => rfl

theorem searches_lookup (h : Heap Value) (q : String) :
    h.Searches (prototype? h) q (fun _ => none) (lookup h · q) where
  bound := by
    intro m v own
    obtain ⟨k, size⟩ := Heap.exists_size_eq own
    simp only [lookup, size, lookupWithin, own]
  further := by
    intro m proto _ own link
    -- One more step than the heap has scopes changes nothing, and the first step leads to `proto`.
    have longer := lookupWithin_eq_lookup (Nat.le_succ h.size) m q
    show lookup h m q = lookupWithin h q h.size proto
    rw [← longer, lookupWithin, own, link]
  ended := by
    intro m own none
    show lookupWithin h q h.size m = .none
    cases h.size with
    | zero => rfl
    | succ k => rw [lookupWithin, own, none]

/-- A member is found along objects of the heap only. -/
theorem lt_size_of_lookup (found : lookup h m q = some v) : m < h.size := by
  by_contra out
  have out := Nat.le_of_not_lt out
  have unbound : h.resolveLocal m q = none := by
    rw [Heap.resolveLocal, Heap.bindings_eq_empty_of_ge out, Bindings.find?_empty]
  have missing := (searches_lookup h q).ended unbound (prototype?_eq_none_of_ge out)
  rw [found] at missing
  cases missing

/-! ## A write -/

/-- From `h` to `h'` the object with the members `o` was given the value `v` for its member `p`, and
nothing else has happened. -/
structure Written (h h' : Heap Value) (o : ScopeId) (p : String) (v : Value) : Prop where
  written : lookup h' o p = some v
  /-- No scope is made or moved, and the others bind what they bound. -/
  size : h'.size = h.size
  parents : ∀ t, h'.parent? t = h.parent? t
  others : ∀ t, t ≠ o → h'.bindings t = h.bindings t
  /-- The members of the object itself keep their places and, except for `p`, their values. If `p`
  was inherited only, it is the last of them now. -/
  own : (h'.bindings o).entries =
    if p ∈ (h.bindings o).names then
      (h.bindings o).entries.map fun e => if e.1 = p then (e.1, v) else e
    else (h.bindings o).entries ++ [(p, v)]
  /-- The write is seen from the objects whose chains come to `o` before any other object that has a
  member `p` itself. -/
  seen : p ≠ prototypeName → ∀ x, h.Reaches (prototype? h) p o x → lookup h' x p = some v
  /-- From no object anything else is seen than before. -/
  unseen : p ≠ prototypeName → ∀ x q, ¬(q = p ∧ h.Reaches (prototype? h) p o x) →
    lookup h' x q = lookup h x q

theorem prototype?_put (inside : o < h.size) (ne : p ≠ prototypeName) :
    prototype? (h.put o p v) = prototype? h := by
  funext m
  unfold prototype?
  rw [Heap.resolveLocal_put inside, if_neg fun both => ne both.2.symm]

theorem lookup_put_of_reaches (inside : o < h.size) (ne : p ≠ prototypeName)
    (ends : Walk.Ends (prototype? h) x) (reaches : h.Reaches (prototype? h) p o x) :
    lookup (h.put o p v) x p = some v := by
  have search' := searches_lookup (h.put o p v) p
  rw [prototype?_put inside ne] at search'
  exact search'.of_reaches inside ends reaches

theorem lookup_put_of_not_reaches (inside : o < h.size) (ne : p ≠ prototypeName)
    (ends : Walk.Ends (prototype? h) x) (apart : ¬(q = p ∧ h.Reaches (prototype? h) p o x)) :
    lookup (h.put o p v) x q = lookup h x q := by
  have search := searches_lookup h q
  have search' := searches_lookup (h.put o p v) q
  rw [prototype?_put inside ne] at search'
  exact search.of_apart inside search' ends apart

theorem entries_put (inside : o < h.size) :
    ((h.put o p v).bindings o).entries =
      if p ∈ (h.bindings o).names then
        (h.bindings o).entries.map fun e => if e.1 = p then (e.1, v) else e
      else (h.bindings o).entries ++ [(p, v)] := by
  rw [Heap.bindings_put_self inside]
  split
  case isTrue bound =>
    rw [Bindings.insert, dif_pos (Bindings.contains_iff.mpr bound)]
    rfl
  case isFalse free => exact Bindings.entries_insert_of_not_mem v free

theorem written_put (inside : o < h.size) (ends : ∀ x, Walk.Ends (prototype? h) x) :
    Written h (h.put o p v) o p v where
  written := (searches_lookup (h.put o p v) p).bound (by rw [Heap.resolveLocal_put inside]; simp)
  size := Heap.size_put ..
  parents t := Heap.parent?_put ..
  others t ne := Heap.bindings_put_of_ne ne.symm p v
  own := entries_put inside
  seen ne x reaches := lookup_put_of_reaches inside ne (ends x) reaches
  unseen ne x _ apart := lookup_put_of_not_reaches inside ne (ends x) apart

end Value

/-! ## Assignments -/

namespace Run

variable {call : Caller} {s o : ScopeId} {w w' : World} {receiver : Expr} {name : Option String}

/-- When the receiver has come to an object, it is given the member, if it has it already. -/
theorem assign_property (evaluated : evaluate call s receiver w = .ok (.object name o) w')
    (node : NodeRef) (p : String) (v : Value) :
    assign call s ⟨node, .property receiver p⟩ v w =
      match Value.lookup w'.heap o p with
      | some _ => .ok () { w' with heap := w'.heap.put o p v }
      | none => .error (.fault ⟨.undefinedProperty p, some (.of node)⟩) w' := by
  simp only [assign, Bind.bind, EStateM.bind, evaluated, membersOf, Pure.pure, EStateM.pure, read]
  cases Value.lookup w'.heap o p <;> rfl

/-- The assignment of a property, from the moment at which its receiver has come to an object whose
members are in `o`. If all prototype chains of the heap end there, then the assignment is refused
exactly if the property is not found, and changes nothing then. Otherwise the object itself is given
the value, and this is the only change of the heap and of the world. -/
theorem writes_land_on_receiver (node : NodeRef) (p : String) (v : Value)
    (evaluated : evaluate call s receiver w = .ok (.object name o) w')
    (ends : ∀ x, Walk.Ends (Value.prototype? w'.heap) x) :
    (Value.lookup w'.heap o p = none →
      assign call s ⟨node, .property receiver p⟩ v w =
        .error (.fault ⟨.undefinedProperty p, some (.of node)⟩) w') ∧
    ((Value.lookup w'.heap o p).isSome →
      ∃ h, assign call s ⟨node, .property receiver p⟩ v w = .ok () { w' with heap := h } ∧
        Value.Written w'.heap h o p v) := by
  have assigned := assign_property evaluated node p v
  constructor
  · intro missing
    rw [assigned, missing]
  · intro has
    obtain ⟨u, found⟩ := Option.isSome_iff_exists.mp has
    refine ⟨w'.heap.put o p v, by rw [assigned, found], ?_⟩
    exact Value.written_put (Value.lt_size_of_lookup found) ends

/-- An object with a member `x`, two objects with that one for their prototype, and one more behind
the first of these. -/
def relativesScript : Script :=
  ⟨[⟨default, .letVar ⟨"base", none, some ⟨default, .object (some "Base")
      [⟨default, ⟨"x", none, some ⟨default, .literal (.integer 1)⟩⟩⟩] []⟩⟩⟩,
    ⟨default, .letVar ⟨"left", none, some ⟨default, .object (some "Left")
      [⟨default, ⟨"prototype", none, some ⟨default, .variable "base"⟩⟩⟩] []⟩⟩⟩,
    ⟨default, .letVar ⟨"right", none, some ⟨default, .object (some "Right")
      [⟨default, ⟨"prototype", none, some ⟨default, .variable "base"⟩⟩⟩] []⟩⟩⟩,
    ⟨default, .letVar ⟨"child", none, some ⟨default, .object (some "Child")
      [⟨default, ⟨"prototype", none, some ⟨default, .variable "left"⟩⟩⟩] []⟩⟩⟩]⟩

/-- The world after this script. -/
def relatives : World := ⟨((RunSession.start false).run relativesScript).after.heap, #[]⟩

theorem ends_relatives : ∀ x, Walk.Ends (Value.prototype? relatives.heap) x := by
  refine Walk.Ends.of_lt fun m p link => ?_
  have older : ∀ m < relatives.heap.size, ∀ p ∈ Value.prototype? relatives.heap m, p < m := by
    decide +kernel
  exact older m (Value.lt_size_of_prototype? link) p link

/-- `left.x` is inherited from `base`. When it is assigned, `left` (scope 2) and `child` (scope 4)
have the new value, `base` (scope 1) and `right` (scope 3) the old one. -/
theorem writes_land_on_receiver_relatives :
    ∃ h, assign (callClosure 0) 0 ⟨default, .property ⟨default, .variable "left"⟩ "x"⟩
          (.integer 5) relatives = .ok () { relatives with heap := h } ∧
      Value.lookup relatives.heap 2 "x" = some (.integer 1) ∧
      Value.Written relatives.heap h 2 "x" (.integer 5) ∧
      Value.lookup h 4 "x" = some (.integer 5) ∧
      Value.lookup h 1 "x" = some (.integer 1) ∧ Value.lookup h 3 "x" = some (.integer 1) := by
  have evaluated : evaluate (callClosure 0) 0 ⟨default, .variable "left"⟩ relatives =
      .ok (.object (some "Left") 2) relatives := rfl
  have found : Value.lookup relatives.heap 2 "x" = some (.integer 1) := rfl
  obtain ⟨h, assigned, written⟩ :=
    (writes_land_on_receiver default "x" (.integer 5) evaluated ends_relatives).2
      (Option.isSome_of_eq_some found)
  have proto : "x" ≠ prototypeName := by decide
  have base : Value.prototype? relatives.heap 1 = none := by decide +kernel
  have right : Value.prototype? relatives.heap 3 = some 1 := by decide +kernel
  -- Neither `base` nor `right` leads to `left`.
  have apart : ¬relatives.heap.Reaches (Value.prototype? relatives.heap) "x" 2 1 := by
    intro reaches
    cases reaches with
    | further link _ _ => cases base.symm.trans link
  have apart' : ¬relatives.heap.Reaches (Value.prototype? relatives.heap) "x" 2 3 := by
    intro reaches
    cases reaches with
    | further link _ rest =>
      cases right.symm.trans link
      exact apart rest
  refine ⟨h, assigned, found, written, written.seen proto 4 ?_, ?_, ?_⟩
  · exact .further (p := 2) (by decide +kernel) (by decide +kernel) .here
  · exact written.unseen proto 1 "x" fun both => apart both.2
  · exact written.unseen proto 3 "x" fun both => apart' both.2

end Run

end GradualScript
