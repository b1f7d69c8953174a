/-
# GradualScript.Proofs.Check.Prototypes -- prototype chains end

Nothing in the checker looks for cycles, and the member scope of an object goes on growing while
`this` is in sight of its methods, which may build objects with `this` for a prototype. That no
chain of prototypes is cyclic has another reason. A link from a scope is made by a definition in
that scope, and as long as a scope may still get one, no type names it: the type of an object is
handed out when its fields are done, and from then on only functions are defined in its scope.

Hence the invariant. `growing` are the scopes that may still get a link, and a heap is `Founded` if
its links are well founded and no type that is bound in it names a growing scope. Every step of the
checker keeps it, whether the step succeeds or fails. How long a chain may be follows from the size
of the heap (`wellFounded_iff`), so the bounded searches along prototypes are the unbounded ones.
-/

import GradualScript.Proofs.Check.Settled
import GradualScript.Proofs.Scope.Links
import GradualScript.Session
import Mathlib.Order.WellFounded

namespace GradualScript

variable {h h' H : Heap Ty} {free growing : Set ScopeId} {m s : ScopeId}

/-! ## Chains -/

namespace Ty

/-- The object with members `m` has the one with members `p` for its prototype. -/
def Links (h : Heap Ty) (p m : ScopeId) : Prop :=
  ∃ name, prototype? h m = some (.object name p)

/-- The prototype chain from `m` comes to its end within `n` scopes of the heap. -/
def EndsWithin (h : Heap Ty) : Nat → ScopeId → Prop
  | 0, m => h.size ≤ m
  | n + 1, m => ∀ name p, prototype? h m = some (.object name p) → EndsWithin h n p

/-- Only scopes that exist have a prototype. -/
theorem lt_size_of_links {p : ScopeId} (link : Links h p m) : m < h.size := by
  obtain ⟨name, found⟩ := link
  exact Heap.lt_size_of_resolveLocal found

/-- Where the walk along prototypes goes on from the object with members `m`. -/
def nextObject? (h : Heap Ty) (m : ScopeId) : Option ScopeId :=
  match prototype? h m with
  | some (.object _ p) => some p
  | _ => none

theorem nextObject?_eq_some_iff {p : ScopeId} : nextObject? h m = some p ↔ Links h p m := by
  unfold nextObject? Links
  constructor
  · intro next
    split at next
    case h_1 name _ link =>
      obtain rfl := Option.some.inj next
      exact ⟨name, link⟩
    case h_2 => cases next
  · rintro ⟨name, link⟩
    rw [link]

theorem ends_nextObject?_iff : Walk.Ends (nextObject? h) m ↔ Acc (Links h) m := by
  simp only [Walk.Ends, nextObject?_eq_some_iff]

theorem endsWithin_iff :
    ∀ {n : Nat} {m : ScopeId}, EndsWithin h n m ↔ Walk.EndsWithin (nextObject? h) h.size n m
  | 0, _ => Iff.rfl
  | n + 1, m => by
    simp only [EndsWithin, Walk.EndsWithin, nextObject?_eq_some_iff, endsWithin_iff (n := n)]
    exact ⟨fun within p ⟨name, link⟩ => within name p link,
      fun within name p link => within p ⟨name, link⟩⟩

theorem endsWithin_of_acc (ends : Acc (Links h) m) : EndsWithin h h.size m :=
  endsWithin_iff.mpr <| (ends_nextObject?_iff.mpr ends).endsWithin fun _ _ link =>
    lt_size_of_links (nextObject?_eq_some_iff.mp link)

/-- Chains that end are no longer than the heap. -/
theorem wellFounded_iff : WellFounded (Links h) ↔ ∀ m, EndsWithin h h.size m := by
  constructor
  · intro founded m
    exact endsWithin_of_acc (founded.apply m)
  · intro ends
    have reached : ∀ n m, EndsWithin h n m → Acc (Links h) m := by
      intro n
      induction n with
      | zero =>
        intro m outside
        exact .intro m fun p link => absurd (lt_size_of_links link) (Nat.not_lt_of_le outside)
      | succ n ih =>
        rintro m ends
        exact .intro m fun p ⟨name, found⟩ => ih p (ends name p found)
    exact ⟨fun m => reached _ m (ends m)⟩

/-- A chain that ends within `n` scopes is searched in `n` steps. -/
theorem lookupWithin_of_endsWithin {name : String} :
    ∀ {n k : Nat} {m : ScopeId}, EndsWithin h n m → n ≤ k →
      lookupWithin h name k m = lookupWithin h name n m
  | 0, 0, _, _, _ => rfl
  | 0, k + 1, m, outside, _ => by
    have empty := Heap.bindings_eq_empty_of_ge outside
    simp [lookupWithin, prototype?, Heap.resolveLocal, empty]
  | n + 1, k + 1, m, ends, le => by
    rw [lookupWithin, lookupWithin]
    cases h.resolveLocal m name with
    | some t => rfl
    | none =>
      cases link : prototype? h m with
      | none => rfl
      | some t =>
        cases t with
        | object other p =>
          exact lookupWithin_of_endsWithin (ends other p link) (Nat.le_of_succ_le_succ le)
        | prim p => cases p <;> rfl
        | function params returns => rfl

/-- A chain that ends within `n` scopes is compared with `upper` in `n` steps. -/
theorem inheritsWithin_of_endsWithin {upper : Option String × ScopeId} :
    ∀ {n k : Nat} {m : ScopeId}, EndsWithin h n m → n ≤ k →
      inheritsWithin h upper k m = inheritsWithin h upper n m
  | 0, 0, _, _, _ => rfl
  | 0, k + 1, m, outside, _ => by
    have empty := Heap.bindings_eq_empty_of_ge outside
    simp [inheritsWithin, prototype?, Heap.resolveLocal, empty]
  | n + 1, k + 1, m, ends, le => by
    rw [inheritsWithin, inheritsWithin]
    cases link : prototype? h m with
    | none => rfl
    | some t =>
      cases t with
      | object other p =>
        dsimp only
        rw [inheritsWithin_of_endsWithin (ends other p link) (Nat.le_of_succ_le_succ le)]
      | prim p => cases p <;> rfl
      | function params returns => rfl

/-- A heap has the links of the heaps that it grew from. -/
theorem wellFounded_of_keeps (keeps : h.Keeps free H) (founded : WellFounded (Links H)) :
    WellFounded (Links h) :=
  Subrelation.wf (fun ⟨name, found⟩ => ⟨name, prototype?_of_keeps keeps found⟩) founded

/-- Where no object has a prototype, there are no chains. -/
theorem wellFounded_of_none (none : ∀ m < h.size, prototype? h m = none) :
    WellFounded (Links h) := by
  refine ⟨fun m => .intro m fun p link => ?_⟩
  obtain ⟨name, found⟩ := link
  rw [none m (lt_size_of_links ⟨name, found⟩)] at found
  cases found

end Ty

/-! ## Founded heaps -/

/-- The type names scopes of the heap, and none that may still get a link. -/
def Ty.Apart (growing : Set ScopeId) (h : Heap Ty) (t : Ty) : Prop :=
  ∀ m ∈ t.scopes, m < h.size ∧ m ∉ growing

/-- Prototype chains end, and no type names a scope that may still get a link. -/
structure Heap.Founded (growing : Set ScopeId) (h : Heap Ty) : Prop where
  links : WellFounded (Ty.Links h)
  apart : ∀ s n t, h.resolveLocal s n = some t → t.Apart growing h
  growing_lt : ∀ s ∈ growing, s < h.size

namespace Ty.Apart

variable {t : Ty}

theorem prim (p : Primitive) : (Ty.prim p).Apart growing h := by
  intro m mem
  simp [Ty.scopes] at mem

theorem object_iff {name : Option String} :
    (Ty.object name m).Apart growing h ↔ m < h.size ∧ m ∉ growing := by
  simp [Ty.Apart, Ty.scopes]

theorem function_iff {params : List Ty} {returns : Ty} :
    (Ty.function params returns).Apart growing h ↔
      (∀ p ∈ params, p.Apart growing h) ∧ returns.Apart growing h :=
  Ty.forall_scopes_function_iff

theorem grow (apart : t.Apart growing h) (le : h.size ≤ h'.size) : t.Apart growing h' :=
  fun m mem => ⟨Nat.lt_of_lt_of_le (apart m mem).1 le, (apart m mem).2⟩

theorem anti {growing' : Set ScopeId} (apart : t.Apart growing' h) (sub : growing ⊆ growing') :
    t.Apart growing h :=
  fun m mem => ⟨(apart m mem).1, fun grows => (apart m mem).2 (sub grows)⟩

/-- A scope that does not exist yet is in no type. -/
theorem insert_fresh (apart : t.Apart growing h) (fresh : h.size ≤ s) :
    t.Apart (insert s growing) h := by
  intro m mem
  obtain ⟨inside, kept⟩ := apart m mem
  refine ⟨inside, ?_⟩
  rintro (rfl | grows)
  · exact Nat.lt_irrefl _ (Nat.lt_of_lt_of_le inside fresh)
  · exact kept grows

end Ty.Apart

namespace Heap.Founded

variable {t : Ty} {n : String}

theorem anti {growing' : Set ScopeId} (founded : h.Founded growing') (sub : growing ⊆ growing') :
    h.Founded growing where
  links := founded.links
  apart s n t found := (founded.apart s n t found).anti sub
  growing_lt s mem := founded.growing_lt s (sub mem)

theorem resolve (founded : h.Founded growing) (found : h.resolve s n = some t) :
    t.Apart growing h := by
  obtain ⟨owner, _, found⟩ := Heap.exists_resolveLocal_of_resolve found
  exact founded.apart owner n t found

theorem memberType (founded : h.Founded growing) {receiver : Ty} {use : MemberUse}
    (ok : Check.memberType h receiver n use = .ok t) : t.Apart growing h := by
  unfold Check.memberType at ok
  split at ok
  · split at ok
    case h_1 found =>
      cases ok
      obtain ⟨s, _, bound | ⟨rfl, _⟩⟩ :=
        Ty.exists_of_lookupWithin (P := fun _ => True) (fun _ _ _ _ => id) trivial found
      · exact founded.apart s n t bound
      · exact .prim _
    case h_2 => cases ok
  · cases ok
    exact .prim _
  · cases ok

/-- A new name makes a link only in a growing scope, which nothing is linked to, or none at all. -/
theorem put (founded : h.Founded growing) (inside : s < h.size) (fresh : h.binds s n = false)
    (new : t.Apart growing h) (grows : s ∈ growing ∨ ∀ name p, t ≠ .object name p) :
    (h.put s n t).Founded growing where
  links := by
    have before : ∀ p m, Ty.Links (h.put s n t) p m →
        Ty.Links h p m ∨ m = s ∧ ∃ name, t = .object name p := by
      rintro p m ⟨name, found⟩
      rw [Ty.prototype?, Heap.resolveLocal_put inside] at found
      split at found
      case isTrue same => exact Or.inr ⟨same.1, name, Option.some.inj found⟩
      case isFalse => exact Or.inl ⟨name, found⟩
    have linked : ∀ p m, Ty.Links (h.put s n t) p m → p ∉ growing := by
      intro p m link
      rcases before p m link with ⟨name, found⟩ | ⟨_, name, rfl⟩
      · exact (Ty.Apart.object_iff.mp (founded.apart m _ _ found)).2
      · exact (Ty.Apart.object_iff.mp new).2
    -- The chains of scopes that do not grow are the old ones.
    have reached : ∀ m ∉ growing, Acc (Ty.Links (h.put s n t)) m := by
      intro m
      induction founded.links.apply m with
      | intro m _ ih =>
        intro kept
        refine .intro m fun p link => ?_
        rcases before p m link with old | ⟨rfl, name, same⟩
        · exact ih p old (linked p m link)
        · exact absurd same ((grows.resolve_left kept) name p)
    exact ⟨fun m => .intro m fun p link => reached p (linked p m link)⟩
  apart s' n' t' found := by
    rw [Heap.resolveLocal_put inside] at found
    split at found
    · obtain rfl := Option.some.inj found
      exact new.grow (Nat.le_of_eq (Heap.size_put ..).symm)
    · exact (founded.apart s' n' t' found).grow (Nat.le_of_eq (Heap.size_put ..).symm)
  growing_lt s' mem := by
    rw [Heap.size_put]
    exact founded.growing_lt s' mem

/-- A new scope may get a link: no type names it yet. -/
theorem push {b : Bindings Ty} (founded : h.Founded growing) (keeps : h.Keeps ∅ h')
    (size : h'.size = h.size + 1) (bindings : h'.bindings h.size = b)
    (new : ∀ n t, b.find? n = some t → t.Apart growing h) :
    h'.Founded (insert h.size growing) := by
  have old : ∀ s n t, h'.resolveLocal s n = some t → t.Apart growing h := by
    intro s n t found
    have below := Heap.lt_size_of_resolveLocal found
    rcases Nat.lt_or_ge s h.size with inside | same
    · rw [Heap.resolveLocal, keeps.same s inside (Set.notMem_empty s)] at found
      exact founded.apart s n t found
    · rw [size, Nat.lt_succ_iff] at below
      rw [Nat.le_antisymm below same, Heap.resolveLocal, bindings] at found
      exact new n t found
  have reached : ∀ m, m < h.size → Acc (Ty.Links h') m := by
    intro m
    induction founded.links.apply m with
    | intro m _ ih =>
      intro inside
      refine .intro m fun p link => ?_
      obtain ⟨name, found⟩ := link
      have below := (Ty.Apart.object_iff.mp (old m _ _ found)).1
      rw [Ty.prototype?, Heap.resolveLocal, keeps.same m inside (Set.notMem_empty m)] at found
      exact ih p ⟨name, found⟩ below
  refine ⟨⟨fun m => .intro m fun p link => ?_⟩, fun s n t found => ?_, ?_⟩
  · obtain ⟨name, found⟩ := link
    exact reached p (Ty.Apart.object_iff.mp (old m _ _ found)).1
  · exact ((old s n t found).insert_fresh (Nat.le_refl _)).grow keeps.size_le
  · rintro s (rfl | mem)
    · rw [size]
      exact Nat.lt_succ_self _
    · exact Nat.lt_of_lt_of_le (founded.growing_lt s mem) keeps.size_le

theorem child (founded : h.Founded growing) (s : ScopeId) {b : Bindings Ty}
    (new : ∀ n t, b.find? n = some t → t.Apart growing h) :
    (h.child s b).2.Founded (insert h.size growing) :=
  founded.push (.child ∅ h s b) (Heap.size_child h s b) (Heap.bindings_child_self h s b) new

theorem root (founded : h.Founded growing) : (h.root .empty).2.Founded (insert h.size growing) :=
  founded.push (.root ∅ h .empty) (Heap.size_root h .empty) (Heap.bindings_root_self h .empty)
    fun n t found => by simp at found

end Heap.Founded

/-! ## Steps of the checker -/

namespace Check

variable {α β : Type}

/-- A step that starts in `h` leaves a founded heap, whether it succeeds or fails; when it succeeds,
`post` holds of what it comes to. -/
structure Founds (growing : Set ScopeId) (h : Heap Ty) (x : Check α)
    (post : α → Heap Ty → Prop) : Prop where
  size_le : h.size ≤ (after x h).size
  founded : (after x h).Founded growing
  result : ∀ a h', x h = .ok a h' → post a h'

namespace Founds

variable {post : α → Heap Ty → Prop} {n : String} {t : Ty}

/-- A step that leaves the heap as it is. -/
theorem of_after {x : Check α} (founded : h.Founded growing) (same : after x h = h)
    (result : ∀ a h', x h = .ok a h' → post a h') : Founds growing h x post where
  size_le := Nat.le_of_eq (congrArg Heap.size same.symm)
  founded := by rwa [same]
  result := result

theorem anti {growing' : Set ScopeId} {x : Check α} (founds : Founds growing' h x post)
    (sub : growing ⊆ growing') : Founds growing h x post where
  size_le := founds.size_le
  founded := founds.founded.anti sub
  result := founds.result

theorem pure (founded : h.Founded growing) {a : α} (holds : post a h) :
    Founds growing h (Pure.pure a) post :=
  of_after founded rfl fun b h' ok => by
    obtain ⟨rfl, rfl⟩ := pure_ok.mp ok
    exact holds

/-- The second step starts from what the first one leaves. -/
theorem bind {mid : β → Heap Ty → Prop} {x : Check β} {f : β → Check α}
    (first : Founds growing h x mid)
    (second : ∀ b h', h.size ≤ h'.size → h'.Founded growing → mid b h' →
      Founds growing h' (f b) post) : Founds growing h (x >>= f) post := by
  cases outcome : x h with
  | ok b h' =>
    have reached := after_of_ok outcome
    have next := second b h' (reached ▸ first.size_le) (reached ▸ first.founded)
      (first.result b h' outcome)
    have whole : after (x >>= f) h = after (f b) h' := by rw [after_bind, outcome]
    refine ⟨?_, whole ▸ next.founded, fun a h'' ok => ?_⟩
    · rw [whole]
      exact Nat.le_trans (reached ▸ first.size_le) next.size_le
    · obtain ⟨b', h₁, again, rest⟩ := bind_ok.mp ok
      rw [outcome] at again
      cases again
      exact next.result a h'' rest
  | error fault h' =>
    have reached : after x h = h' := by simp [after, outcome]
    have whole : after (x >>= f) h = h' := by rw [after_bind, outcome]
    refine ⟨?_, ?_, fun a h'' ok => ?_⟩
    · exact whole ▸ reached ▸ first.size_le
    · exact whole ▸ reached ▸ first.founded
    · obtain ⟨b', h₁, again, _⟩ := bind_ok.mp ok
      rw [outcome] at again
      cases again

/-- A failing step leaves the heap as it is. -/
theorem fail (founded : h.Founded growing) (cause : CheckError) :
    Founds growing h (Check.fail cause) post :=
  of_after founded rfl fun _ _ ok => (fail_ok.mp ok).elim

theorem fail_bind (founded : h.Founded growing) (cause : CheckError) {f : β → Check α} :
    Founds growing h (Check.fail cause >>= f) post :=
  of_after founded rfl fun _ _ ok => by simp at ok

theorem failAt (founded : h.Founded growing) (node : NodeRef) (cause : CheckError) :
    Founds growing h (Check.failAt node cause) post :=
  of_after founded rfl fun _ _ ok => (failAt_ok.mp ok).elim

theorem located (node : NodeRef) {x : Check α} (founds : Founds growing h x post) :
    Founds growing h (Check.located node x) post := by
  have same : after (Check.located node x) h = after x h := by
    simp only [after, Check.located]
    cases x h <;> rfl
  exact ⟨same ▸ founds.size_le, same ▸ founds.founded,
    fun a h' ok => founds.result a h' (located_ok.mp ok)⟩

theorem rule (founded : h.Founded growing) {result : Heap Ty → Except CheckError α}
    (holds : ∀ a, result h = .ok a → post a h) : Founds growing h (Check.rule result) post :=
  of_after founded (by simp only [after, Check.rule]; cases result h <;> rfl) fun a h' ok => by
    obtain ⟨judged, rfl⟩ := rule_ok.mp ok
    exact holds a judged

theorem operation (founded : h.Founded growing) (op : BinaryOp) (left right : Ty) :
    Founds growing h (Check.rule fun h => op.type h left right) fun t h' => t.Apart growing h' :=
  rule founded fun t judged => by
    obtain ⟨p, rfl⟩ := BinaryOp.type_prim judged
    exact .prim p

theorem member (founded : h.Founded growing) (receiver : Ty) (name : String) (use : MemberUse) :
    Founds growing h (Check.rule fun h => memberType h receiver name use)
      fun t h' => t.Apart growing h' :=
  rule founded fun _ judged => founded.memberType judged

theorem requireSubtype (founded : h.Founded growing) (sub sup : Ty) (cause : CheckError) :
    Founds growing h (Check.requireSubtype sub sup cause) fun _ _ => True :=
  of_after founded
    (by simp only [after, Check.requireSubtype]; cases sub.isSubtype h sup <;> rfl)
    fun _ _ _ => trivial

theorem requireCount (founded : h.Founded growing) (callee : String) (expected found : Nat) :
    Founds growing h (Check.requireCount callee expected found) fun _ _ => True := by
  unfold Check.requireCount
  split
  · exact pure founded trivial
  · exact fail founded _

theorem resolve (founded : h.Founded growing) (s : ScopeId) (name : String) (cause : CheckError) :
    Founds growing h (Check.resolve s name cause) fun t h' => t.Apart growing h' :=
  of_after founded (by simp only [after, Check.resolve]; cases h.resolve s name <;> rfl)
    fun t h' ok => by
      obtain ⟨found, rfl⟩ := resolve_ok.mp ok
      exact founded.resolve found

/-- In a scope that no longer grows only members that make no link may be defined. -/
theorem define (founded : h.Founded growing) (inside : s < h.size) (new : t.Apart growing h)
    (grows : s ∈ growing ∨ ∀ name p, t ≠ .object name p) (cause : CheckError) :
    Founds growing h (Check.define s n t cause) fun _ _ => True := by
  have whole : after (Check.define s n t cause) h =
      if h.binds s n then h else h.put s n t := by
    simp only [after, Check.define]
    cases h.binds s n <;> rfl
  cases fresh : h.binds s n with
  | true => exact of_after founded (by rw [whole, fresh, if_pos rfl]) fun _ _ _ => trivial
  | false =>
    rw [fresh, if_neg Bool.false_ne_true] at whole
    refine ⟨?_, whole ▸ founded.put inside fresh new grows, fun _ _ _ => trivial⟩
    rw [whole, Heap.size_put]

/-- A scope of a body or of a branch grows as long as its block is checked. -/
theorem child_bind (founded : h.Founded growing) (s : ScopeId) {b : Bindings Ty}
    (new : ∀ n t, b.find? n = some t → t.Apart growing h) {f : ScopeId → Check α}
    (next : (h.child s b).2.Founded (insert h.size growing) →
      Founds (insert h.size growing) (h.child s b).2 (f h.size) post) :
    Founds growing h (Check.child s b >>= f) post := by
  have done := next (founded.child s new)
  have whole : after (Check.child s b >>= f) h = after (f h.size) (h.child s b).2 := by
    rw [after_bind]
    simp only [Check.child, Heap.child_fst]
  refine ⟨?_, whole ▸ done.founded.anti (Set.subset_insert _ _), fun a h' ok => ?_⟩
  · rw [whole]
    exact Nat.le_trans (Nat.le_of_lt (Heap.lt_size_child h s b)) done.size_le
  · simp only [bind_ok, child_ok] at ok
    obtain ⟨_, _, ⟨rfl, rfl⟩, ok⟩ := ok
    exact done.result a h' ok

theorem root_bind (founded : h.Founded growing) {f : ScopeId → Check α}
    (next : (h.root .empty).2.Founded (insert h.size growing) →
      Founds growing (h.root .empty).2 (f h.size) post) :
    Founds growing h (Check.root >>= f) post := by
  have done := next founded.root
  have whole : after (Check.root >>= f) h = after (f h.size) (h.root .empty).2 := by
    rw [after_bind]
    simp only [Check.root, Heap.root_fst]
  refine ⟨?_, whole ▸ done.founded, fun a h' ok => ?_⟩
  · rw [whole]
    exact Nat.le_trans (Nat.le_of_lt (Heap.lt_size_root h .empty)) done.size_le
  · simp only [bind_ok, root_ok] at ok
    obtain ⟨_, _, ⟨rfl, rfl⟩, ok⟩ := ok
    exact done.result a h' ok

variable {ctx : Context}

theorem annotated (founded : h.Founded growing) (name : String) :
    Founds growing h (Check.annotation ctx name) fun t h' => t.Apart growing h' :=
  resolve founded _ _ _

theorem annotationOrDynamic (founded : h.Founded growing) (name : Option String) :
    Founds growing h (Check.annotationOrDynamic ctx name) fun t h' => t.Apart growing h' := by
  cases name with
  | none => exact pure founded (.prim _)
  | some name => exact annotated founded name

theorem annotated? (founded : h.Founded growing) (name : Option String) :
    Founds growing h (Check.annotation? ctx name) fun t h' =>
      ∀ ty, t = some ty → ty.Apart growing h' := by
  cases name with
  | none => exact pure founded fun _ same => by cases same
  | some name =>
    rw [Check.annotation?, ← bind_pure_comp]
    refine bind (annotated founded name) fun t h' _ founded' apart =>
      pure founded' fun ty same => ?_
    exact Option.some.inj same ▸ apart

theorem params {list : List Param} : ∀ {h : Heap Ty} {seen : List String}, h.Founded growing →
    Founds growing h (Check.params ctx seen list) fun ps h' => ∀ p ∈ ps, p.ty.Apart growing h' := by
  induction list with
  | nil => exact fun founded => pure founded (by simp)
  | cons param rest ih =>
    intro h seen founded
    rw [Check.params]
    split
    · exact fail_bind founded _
    · refine bind (annotationOrDynamic founded _) fun t h₁ _ founded₁ apart => ?_
      refine bind (ih founded₁) fun ps h₂ le founded₂ all => pure founded₂ fun p mem => ?_
      rcases List.mem_cons.mp mem with rfl | mem
      · exact apart.grow le
      · exact all p mem

theorem bodyBindings (founded : h.Founded growing) {this : Option Ty} {list : List Typed.Param}
    (around : ∀ t, this = some t → t.Apart growing h) (all : ∀ p ∈ list, p.ty.Apart growing h) :
    Founds growing h (Check.bodyBindings this list) fun b h' =>
      ∀ n t, b.find? n = some t → t.Apart growing h' := by
  have parameters : ∀ n t, (n, t) ∈ list.map (fun p => (p.name, p.ty)) → t.Apart growing h := by
    intro n t mem
    obtain ⟨p, hp, same⟩ := List.mem_map.mp mem
    obtain ⟨rfl, rfl⟩ := Prod.mk.inj same
    exact all p hp
  unfold Check.bodyBindings
  cases this with
  | none => exact pure founded fun n t found => parameters n t (Bindings.mem_of_find?_ofList found)
  | some this =>
    dsimp only
    split
    · exact fail founded _
    · refine pure founded fun n t found => ?_
      rcases List.mem_cons.mp (Bindings.mem_of_find?_ofList found) with same | mem
      · exact (Prod.mk.inj same).2 ▸ around this rfl
      · exact parameters n t mem

end Founds

/-! ## The walk

By recursion on the tree. A block may make links in the active scope, a field in the scope of the
members; a method is checked when that scope no longer grows. -/

mutual

theorem expr_founded {ctx : Context} {growing : Set ScopeId} {h : Heap Ty}
    (founded : h.Founded growing) :
    ∀ e : Expr, Founds growing h (expr ctx e) fun t h' => t.ty.Apart growing h'
  | ⟨node, kind⟩ => by
    rw [expr]
    exact .located node (.bind (exprKind_founded founded kind) fun _ _ _ founded' apart =>
      .pure founded' apart)

/-- One case for each form of expression. The members of an object grow while its fields are
checked, when no type names it yet; its methods are no links, so they may be added while types
do. -/
theorem exprKind_founded {ctx : Context} {growing : Set ScopeId} {h : Heap Ty}
    (founded : h.Founded growing) :
    ∀ k : ExprKind, Founds growing h (exprKind ctx k) fun t h' => t.2.Apart growing h'
  | .literal value => by
    rw [exprKind]
    exact .pure founded (by cases value <;> exact .prim _)
  | .group inner => by
    rw [exprKind]
    exact .bind (expr_founded founded inner) fun _ _ _ founded' apart => .pure founded' apart
  | .binary op left right => by
    rw [exprKind]
    refine .bind (expr_founded founded left) fun l _ _ founded₁ _ => ?_
    refine .bind (expr_founded founded₁ right) fun r h₂ _ founded₂ _ => ?_
    exact .bind (.operation founded₂ op l.ty r.ty) fun _ _ _ founded₃ apart =>
      .pure founded₃ apart
  | .variable name => by
    rw [exprKind]
    exact .bind (.resolve founded _ _ _) fun _ _ _ founded' apart => .pure founded' apart
  | .property receiver name => by
    rw [exprKind]
    refine .bind (expr_founded founded receiver) fun r h₁ _ founded₁ _ => ?_
    exact .bind (.member founded₁ r.ty name .property) fun _ _ _ founded₂ apart =>
      .pure founded₂ apart
  | .call name arguments => by
    rw [exprKind]
    refine .bind (.resolve founded _ _ _) fun callee _ _ founded₁ apart => ?_
    cases callee with
    | function params returns =>
      refine .bind (.requireCount founded₁ _ _ _) fun _ _ le₂ founded₂ _ => ?_
      refine .bind (argumentList_founded founded₂ arguments) fun _ _ le₃ founded₃ _ => ?_
      exact .pure founded₃ ((Ty.Apart.function_iff.mp apart).2.grow (Nat.le_trans le₂ le₃))
    | prim p => exact .fail founded₁ _
    | object n members => exact .fail founded₁ _
  | .invoke receiver name arguments => by
    rw [exprKind]
    refine .bind (expr_founded founded receiver) fun r h₁ _ founded₁ _ => ?_
    refine .bind (.member founded₁ r.ty name .method) fun callee _ _ founded₂ apart => ?_
    split
    · exact .bind (exprs_founded founded₂ arguments) fun _ _ _ founded₃ _ =>
        .pure founded₃ (.prim _)
    · refine .bind (.requireCount founded₂ _ _ _) fun _ _ le₃ founded₃ _ => ?_
      refine .bind (argumentList_founded founded₃ arguments) fun _ _ le₄ founded₄ _ => ?_
      exact .pure founded₄ ((Ty.Apart.function_iff.mp apart).2.grow (Nat.le_trans le₃ le₄))
    · exact .fail founded₂ _
  | .object name fieldList methodList => by
    rw [exprKind]
    refine .root_bind founded fun founded₁ => ?_
    -- No scope that grows around the object is the scope of its members.
    have fresh : h.size ∉ growing := fun mem => Nat.lt_irrefl _ (founded.growing_lt _ mem)
    refine .bind (.anti (fields_founded founded₁ (Set.mem_insert h.size growing) fieldList)
      (Set.subset_insert h.size growing)) fun _ h₂ le₂ founded₂ _ => ?_
    have inside : h.size < h₂.size := Nat.lt_of_lt_of_le (Heap.lt_size_root h .empty) le₂
    have this : (Ty.object name h.size).Apart growing h₂ := Ty.Apart.object_iff.mpr ⟨inside, fresh⟩
    refine .bind (methods_founded founded₂ inside this methodList) fun _ _ le₃ founded₃ _ => ?_
    exact .pure founded₃ (this.grow le₃)

theorem exprs_founded {ctx : Context} {growing : Set ScopeId} {h : Heap Ty}
    (founded : h.Founded growing) :
    ∀ es : List Expr, Founds growing h (exprs ctx es) fun _ _ => True
  | [] => by
    rw [exprs]
    exact .pure founded trivial
  | e :: es => by
    rw [exprs]
    exact .bind (expr_founded founded e) fun _ _ _ founded₁ _ =>
      .bind (exprs_founded founded₁ es) fun _ _ _ founded₂ _ => .pure founded₂ trivial

theorem argumentList_founded {ctx : Context} {growing : Set ScopeId} {h : Heap Ty}
    (founded : h.Founded growing)
    {callee : String} : ∀ {index : Nat} {params : List Ty} (es : List Expr),
      Founds growing h (argumentList ctx callee index params es) fun _ _ => True
  | index, param :: params, e :: es => by
    rw [argumentList]
    exact .bind (expr_founded founded e) fun _ _ _ founded₁ _ =>
      .bind (.located _ (.requireSubtype founded₁ _ _ _)) fun _ _ _ founded₂ _ =>
        .bind (argumentList_founded founded₂ es) fun _ _ _ founded₃ _ => .pure founded₃ trivial
  | _, [], es => by
    rw [argumentList]
    · exact .pure founded trivial
    · simp
  | _, _ :: _, [] => by
    rw [argumentList]
    · exact .pure founded trivial
    · simp

/-- A `LET` or a field. Its value may come with new scopes before its name is bound. -/
theorem binding_founded {ctx : Context} {growing : Set ScopeId} {h : Heap Ty}
    (founded : h.Founded growing) {id : NodeId}
    {target : ScopeId} (grows : target ∈ growing) :
    ∀ b : Binding, Founds growing h (binding ctx id target b) fun _ _ => True
  | ⟨name, ty, none⟩ => by
    rw [binding]
    refine .bind (.annotated? founded ty) fun declared h₁ _ founded₁ apart => ?_
    have new : (declared.getD .dynamic).Apart growing h₁ := by
      cases declared with
      | none => exact .prim _
      | some t => exact apart t rfl
    exact .bind (.define founded₁ (founded₁.growing_lt _ grows) new (Or.inl grows) _)
      fun _ _ _ founded₂ _ => .pure founded₂ trivial
  | ⟨name, ty, some e⟩ => by
    rw [binding]
    refine .bind (.annotated? founded ty) fun declared h₁ _ founded₁ apart => ?_
    refine .bind (expr_founded founded₁ e) fun value h₂ le₂ founded₂ valueApart => ?_
    refine .bind (.located _ (.requireSubtype founded₂ _ _ _)) fun _ h₃ le₃ founded₃ _ => ?_
    have new : (declared.getD value.ty).Apart growing h₃ := by
      cases declared with
      | none => exact valueApart.grow le₃
      | some t => exact (apart t rfl).grow (Nat.le_trans le₂ le₃)
    exact .bind (.define founded₃ (founded₃.growing_lt _ grows) new (Or.inl grows) _)
      fun _ _ _ founded₄ _ => .pure founded₄ trivial

theorem fields_founded {ctx : Context} {growing : Set ScopeId} {h : Heap Ty}
    (founded : h.Founded growing)
    {target : ScopeId} (grows : target ∈ growing) :
    ∀ fs : List Field, Founds growing h (fields ctx target fs) fun _ _ => True
  | [] => by
    rw [fields]
    exact .pure founded trivial
  | ⟨node, b⟩ :: rest => by
    rw [fields]
    exact .bind (.located node (binding_founded founded grows b)) fun _ _ _ founded₁ _ =>
      .bind (fields_founded founded₁ grows rest) fun _ _ _ founded₂ _ => .pure founded₂ trivial

theorem definition_founded {ctx : Context} {growing : Set ScopeId} {h : Heap Ty}
    (founded : h.Founded growing)
    (active : ctx.scope < h.size) {id : NodeId} {this : Option Ty}
    (around : ∀ t, this = some t → t.Apart growing h) :
    ∀ d : Definition, Founds growing h (definition ctx id this d) fun _ _ => True
  | ⟨name, list, returns, body⟩ => by
    rw [definition]
    refine .bind (.annotationOrDynamic founded returns) fun result h₁ le₁ founded₁ resultApart => ?_
    refine .bind (.params founded₁) fun ps h₂ le₂ founded₂ all => ?_
    have new : (Ty.function (ps.map Typed.Param.ty) result).Apart growing h₂ := by
      refine Ty.Apart.function_iff.mpr ⟨fun t mem => ?_, resultApart.grow le₂⟩
      obtain ⟨p, hp, rfl⟩ := List.mem_map.mp mem
      exact all p hp
    have inside₂ := Nat.lt_of_lt_of_le active (Nat.le_trans le₁ le₂)
    refine .bind (.define founded₂ inside₂ new (Or.inr fun _ _ same => by cases same) _)
      fun _ h₃ le₃ founded₃ _ => ?_
    have le := Nat.le_trans (Nat.le_trans le₁ le₂) le₃
    refine .bind (.bodyBindings founded₃ (fun t same => (around t same).grow le)
      fun p hp => (all p hp).grow le₃) fun b h₄ _ founded₄ bound => ?_
    refine .child_bind founded₄ _ bound fun founded₅ => ?_
    exact .bind (block_founded founded₅ (Set.mem_insert _ _) body) fun _ _ _ founded₆ _ =>
      .pure founded₆ trivial

theorem methods_founded {ctx : Context} {growing : Set ScopeId} {h : Heap Ty}
    (founded : h.Founded growing)
    (active : ctx.scope < h.size) {this : Ty} (around : this.Apart growing h) :
    ∀ ms : List Method, Founds growing h (methods ctx this ms) fun _ _ => True
  | [] => by
    rw [methods]
    exact .pure founded trivial
  | ⟨node, d⟩ :: rest => by
    rw [methods]
    refine .bind (.located node (definition_founded founded active
      (fun t same => Option.some.inj same ▸ around) d)) fun _ _ le₁ founded₁ _ => ?_
    exact .bind (methods_founded founded₁ (Nat.lt_of_lt_of_le active le₁) (around.grow le₁) rest)
      fun _ _ _ founded₂ _ => .pure founded₂ trivial

theorem stmt_founded {ctx : Context} {growing : Set ScopeId} {h : Heap Ty}
    (founded : h.Founded growing)
    (grows : ctx.scope ∈ growing) : ∀ s : Stmt, Founds growing h (stmt ctx s) fun _ _ => True
  | ⟨node, kind⟩ => by
    rw [stmt]
    exact .located node (.bind (stmtKind_founded founded grows kind) fun _ _ _ founded' _ =>
      .pure founded' trivial)

theorem stmtKind_founded {ctx : Context} {growing : Set ScopeId} {h : Heap Ty}
    (founded : h.Founded growing)
    (grows : ctx.scope ∈ growing) {id : NodeId} :
    ∀ k : StmtKind, Founds growing h (stmtKind ctx id k) fun _ _ => True
  | .letVar b => by
    rw [stmtKind]
    exact .bind (binding_founded founded grows b) fun _ _ _ founded' _ => .pure founded' trivial
  | .defFun d => by
    rw [stmtKind]
    exact .bind (definition_founded founded (founded.growing_lt _ grows)
      (fun t same => by cases same) d) fun _ _ _ founded' _ => .pure founded' trivial
  | .ifElse condition thenBody elseBody => by
    rw [stmtKind]
    refine .bind (expr_founded founded condition) fun c h₁ _ founded₁ _ => ?_
    have branches : Founds growing h₁ (child ctx.scope .empty >>= fun s => do
        let thenBody ← block { ctx with scope := s } thenBody
        let elseScope ← child ctx.scope .empty
        let elseBody ← block { ctx with scope := elseScope } elseBody
        return Typed.StmtKind.ifElse c thenBody elseBody) fun _ _ => True := by
      refine .child_bind founded₁ _ (by simp) fun founded₂ => ?_
      refine .bind (block_founded founded₂ (Set.mem_insert _ _) thenBody)
        fun a h₃ _ founded₃ _ => ?_
      refine .child_bind founded₃ _ (by simp) fun founded₄ => ?_
      exact .bind (block_founded founded₄ (Set.mem_insert _ _) elseBody) fun _ _ _ founded₅ _ =>
        .pure founded₅ trivial
    split
    · exact .fail_bind founded₁ _
    · exact branches
  | .forEach name iterable body => by
    rw [stmtKind]
    refine .bind (expr_founded founded iterable) fun i h₁ _ founded₁ _ => ?_
    refine .bind (.requireSubtype founded₁ _ _ _) fun _ h₂ _ founded₂ _ => ?_
    refine .child_bind founded₂ _ (fun n t found => ?_) fun founded₃ => ?_
    · obtain ⟨_, rfl⟩ := Bindings.eq_of_find?_single found
      split <;> exact .prim _
    · exact .bind (block_founded founded₃ (Set.mem_insert _ _) body) fun _ _ _ founded₄ _ =>
        .pure founded₄ trivial
  | .returns value => by
    rw [stmtKind]
    cases ctx.returns with
    | none => exact .fail founded _
    | some expected =>
      cases value with
      | none =>
        exact .bind (.requireSubtype founded _ _ _) fun _ _ _ founded' _ => .pure founded' trivial
      | some e =>
        exact .bind (expr_founded founded e) fun _ _ _ founded₁ _ =>
          .bind (.requireSubtype founded₁ _ _ _) fun _ _ _ founded₂ _ => .pure founded₂ trivial
  | .expr e => by
    rw [stmtKind]
    exact .bind (expr_founded founded e) fun _ _ _ founded' _ => .pure founded' trivial
  | .assign ⟨target, kind⟩ value => by
    cases kind with
    | «variable» name =>
      rw [stmtKind]
      exact .bind (.located _ (.resolve founded _ _ _)) fun _ _ _ founded₁ _ =>
        .bind (expr_founded founded₁ value) fun _ _ _ founded₂ _ =>
          .bind (.requireSubtype founded₂ _ _ _) fun _ _ _ founded₃ _ => .pure founded₃ trivial
    | property receiver name =>
      rw [stmtKind]
      refine .bind (expr_founded founded receiver) fun r h₁ _ founded₁ _ => ?_
      exact .bind (.located _ (.member founded₁ r.ty name .property)) fun _ _ _ founded₂ _ =>
        .bind (expr_founded founded₂ value) fun _ _ _ founded₃ _ =>
          .bind (.requireSubtype founded₃ _ _ _) fun _ _ _ founded₄ _ => .pure founded₄ trivial
    | _ =>
      rw [stmtKind]
      · exact .failAt founded _ _
      all_goals simp

/-- A block in a scope that still grows: each statement may bind a name there. -/
theorem block_founded {ctx : Context} {growing : Set ScopeId} {h : Heap Ty}
    (founded : h.Founded growing)
    (grows : ctx.scope ∈ growing) : ∀ ss : List Stmt, Founds growing h (block ctx ss)
      fun _ _ => True
  | [] => by
    rw [block]
    exact .pure founded trivial
  | s :: rest => by
    rw [block]
    exact .bind (stmt_founded founded grows s) fun _ _ _ founded₁ _ =>
      .bind (block_founded founded₁ grows rest) fun _ _ _ founded₂ _ => .pure founded₂ trivial

end

end Check

/-! ## Sessions -/

namespace CheckSession

/-- Every object type of the session has a finite prototype chain, and the scope that scripts are
checked in is not the member scope of one of them. -/
def Founded (s : CheckSession) : Prop := s.heap.Founded {s.scope}

variable {s : CheckSession}

theorem start_founded (fixtures : Bool) : (start fixtures).Founded := by
  have older : ∀ t < (start fixtures).heap.size, ∀ e ∈ ((start fixtures).heap.bindings t).entries,
      ∀ m ∈ e.2.scopes, m < t := by
    cases fixtures <;> decide
  have named {t : ScopeId} {n : String} {ty : Ty}
      (found : (start fixtures).heap.resolveLocal t n = some ty) :
      t < (start fixtures).heap.size ∧ ∀ m ∈ ty.scopes, m < t :=
    ⟨Heap.lt_size_of_resolveLocal found,
      older t (Heap.lt_size_of_resolveLocal found) _ (Bindings.mem_of_find? found)⟩
  have last : (start fixtures).heap.size = (start fixtures).scope + 1 := by
    cases fixtures <;> rfl
  refine ⟨?_, fun t n ty found m mem => ?_, fun t same => ?_⟩
  · refine Subrelation.wf (fun {p m} link => ?_) Nat.lt_wfRel.wf
    obtain ⟨name, found⟩ := link
    exact (named found).2 p (by simp [Ty.scopes])
  · obtain ⟨inside, below⟩ := named found
    have before : m < (start fixtures).scope :=
      Nat.lt_of_lt_of_le (below m mem) (Nat.le_of_lt_succ (Nat.lt_of_lt_of_eq inside last))
    exact ⟨Nat.lt_trans (below m mem) inside, Nat.ne_of_lt before⟩
  · rw [same, last]
    exact Nat.lt_succ_self _

theorem check_heap (s : CheckSession) (p : Script) :
    (s.check p).2.heap = Check.after (Check.block { scope := s.scope } p.statements) s.heap := by
  unfold check Check.after
  split <;> simp [*]

theorem check_scope (s : CheckSession) (p : Script) : (s.check p).2.scope = s.scope := by
  unfold check
  split <;> rfl

/-- A script, accepted or rejected, leaves a session that the next script can be checked in. -/
theorem Founded.check (founded : s.Founded) (p : Script) : (s.check p).2.Founded := by
  rw [Founded, check_heap, check_scope]
  exact (Check.block_founded founded (Set.mem_singleton s.scope) p.statements).founded

/-- Checking only adds to the heap, so the heaps that it passes through are among those that its
last one grows from. In each of them every prototype chain, also one that starts from an object
under construction, comes to an end within the scopes of the heap, and more steps than these would
find no other member and no other object type above. -/
theorem Founded.chains_end (founded : s.Founded) (p : Script) {h : Heap Ty}
    (earlier : h.Keeps Set.univ (s.check p).2.heap) (m : ScopeId) :
    Ty.EndsWithin h h.size m ∧
      (∀ name k, h.size ≤ k → Ty.lookupWithin h name k m = Ty.lookup h m name) ∧
      ∀ upper k, h.size ≤ k → Ty.inheritsWithin h upper k m = Ty.inherits h m upper := by
  have ends := Ty.wellFounded_iff.mp (Ty.wellFounded_of_keeps earlier (founded.check p).links) m
  exact ⟨ends, fun name k enough => Ty.lookupWithin_of_endsWithin ends enough,
    fun upper k enough => Ty.inheritsWithin_of_endsWithin ends enough⟩

/-- While an object is under construction one of its methods makes an object whose prototype has the
former for its prototype, and is made after it. -/
def thisScript : Script :=
  ⟨[⟨default, .letVar ⟨"outer", none, some ⟨default, .object (some "Outer")
      [⟨default, "prototype", none, some ⟨default, .variable "object"⟩⟩]
      [⟨default, "make", [], some "String",
        [⟨default, .letVar ⟨"inner", none, some ⟨default, .object none
          [⟨default, "prototype", none, some ⟨default, .object none
            [⟨default, "prototype", none, some ⟨default, .variable "this"⟩⟩] []⟩⟩] []⟩⟩⟩,
          ⟨default, .returns (some ⟨default, .property ⟨default, .variable "inner"⟩
            "inherited_property"⟩)⟩]⟩]⟩⟩⟩]⟩

/-- The chain from the inner object (scope 5) goes on to its prototype (6), to the outer object (3),
and to the sample object of the prelude and its prototype (1 and 0). -/
theorem chains_end_thisScript :
    (start true).Founded ∧ ((start true).check thisScript).1.isOk = true ∧
      Ty.Links ((start true).check thisScript).2.heap 6 5 ∧
      Ty.Links ((start true).check thisScript).2.heap 3 6 ∧
      Ty.Links ((start true).check thisScript).2.heap 1 3 ∧
      Ty.EndsWithin ((start true).check thisScript).2.heap
        ((start true).check thisScript).2.heap.size 5 :=
  ⟨start_founded true, by decide, ⟨none, by decide⟩, ⟨some "Outer", by decide⟩,
    ⟨some "Object", by decide⟩, ((start_founded true).chains_end thisScript (.refl _ _) 5).1⟩

/-! ### A top level that is an object

The scope that scripts are checked in can be the member scope of an object type only if a prelude is
built that way: nothing that the checker makes is. -/

/-- The members of `x` are what the top level binds. -/
def selfSession : CheckSession :=
  let (scope, h) := Heap.empty.root (.ofList [("x", .object none 0)])
  ⟨h, scope⟩

/-- The top level gets a prototype, which is itself. -/
def selfScript : Script :=
  ⟨[⟨default, .letVar ⟨"prototype", none, some ⟨default, .variable "x"⟩⟩⟩]⟩

/-- All chains are finite before, as there are none. After the script, which is accepted, the chain
from `x` leads back to `x` and has no end. -/
theorem selfSession_chains_cycle :
    WellFounded (Ty.Links selfSession.heap) ∧ (selfSession.check selfScript).1.isOk = true ∧
      Ty.Links (selfSession.check selfScript).2.heap 0 0 ∧
      ∀ n, ¬Ty.EndsWithin (selfSession.check selfScript).2.heap n 0 := by
  refine ⟨Ty.wellFounded_of_none (by decide), by decide, ⟨none, by decide⟩, fun n ends => ?_⟩
  induction n with
  | zero => exact Nat.not_succ_le_zero 0 ends
  | succ n ih => exact ih (ends none 0 (by decide))

end CheckSession

end GradualScript
