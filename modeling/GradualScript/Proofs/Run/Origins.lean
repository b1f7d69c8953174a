/-
# GradualScript.Proofs.Run.Origins -- which closures are equal

The comparison of closures (`Callable.equals`) looks at the scope that they capture and at their
name. What it is meant to find out is whether they have their definition from the same place. It
does: a closure is bound where it is made, in the scope that it captures and under its own name, and
a scope that binds a name refuses to define it again. So among all moments of a session there is at
most one from which closures of this scope and name come (`Moment.Apart`), and two closures that
agree in both are one and the same (`RunSession.equals_iff`).

A `DEF` that is refused has made a closure too, but binds it nowhere: it is lost in the fault.
-/

import GradualScript.Proofs.Run.Lineage

namespace GradualScript

/-! ## Origins -/

/-- The closure comes from here: a `DEF` makes it, and its name is free, or it is the first method
of its name in an object expression. -/
def Moment.Originates (now : Moment) (f : Closure) : Prop :=
  match now.act with
  | .makes g => g = f ∧ f.definition.name ∉ (now.heap.bindings f.captured).names
  | .builds m methods => ∃ method,
      methods.find? (fun d => d.definition.name == f.definition.name) = some method ∧
        f = ⟨method.definition, m, true⟩
  | _ => False

/-- A `DEF` is refused, because the active scope binds its name. -/
def Moment.Refuses (now : Moment) : Prop :=
  ∃ f, now.act = .makes f ∧ f.definition.name ∈ (now.heap.bindings f.captured).names

/-- No closures of the same scope and name come from both. -/
def Moment.Apart (now now' : Moment) : Prop :=
  ∀ f g, now.Originates f → now'.Originates g → f.captured = g.captured →
    f.definition.name ≠ g.definition.name

variable {base m : ScopeId} {h h' : Heap Value} {log log' : List Moment} {p : Place} {v : Value}
  {now : Moment} {f g : Closure} {act : Act}

/-- From one moment only one closure of a name comes. -/
theorem Moment.Originates.eq (first : now.Originates f) (second : now.Originates g)
    (name : f.definition.name = g.definition.name) : f = g := by
  unfold Moment.Originates at first second
  cases act : now.act with
  | makes k =>
    rw [act] at first second
    exact first.1.symm.trans second.1
  | builds m methods =>
    rw [act] at first second
    obtain ⟨method, found, rfl⟩ := first
    obtain ⟨method', found', rfl⟩ := second
    rw [name, found'] at found
    obtain rfl := Option.some.inj found
    rfl
  | _ =>
    rw [act] at first
    exact first.elim

/-! ## What is known of the moments of a run -/

/-- A closure has an origin. A sequence holds integers. -/
def Value.Originated (log : List Moment) : Value → Prop
  | .function (.closure f) => ∃ now ∈ log, now.Originates f
  | .iterable elements => ∀ v ∈ elements, ∃ n, v = .integer n
  | _ => True

/-- Code runs in the scope of the script or inside another scope. -/
structure Place.Originated (base : ScopeId) (h : Heap Value) (p : Place) : Prop where
  inside : p.scope < h.size
  scope : p.scope = base ∨ (h.parent? p.scope).isSome

/-- The name of a closure that has been made is bound, whether by this `DEF` or before, in a scope
that code runs in. -/
structure Closure.IsBound (base : ScopeId) (h : Heap Value) (f : Closure) : Prop where
  scope : f.captured = base ∨ (h.parent? f.captured).isSome
  name : f.definition.name ∈ (h.bindings f.captured).names

/-- The members of an object are in a scope of their own, which no code runs in. -/
structure Heap.HasMembers (base : ScopeId) (h : Heap Value) (m : ScopeId) : Prop where
  young : base < m
  inside : m < h.size
  none : h.parent? m = none

/-- What is known of the heap, given the moments that it has passed. -/
structure Heap.Originated (base : ScopeId) (log : List Moment) (h : Heap Value) : Prop where
  inside : base < h.size
  bound : h.Holds fun v => v.Originated log
  makes : ∀ now ∈ log, ∀ f, now.act = .makes f → f.IsBound base h
  builds : ∀ now ∈ log, ∀ m methods, now.act = .builds m methods → h.HasMembers base m
  apart : log.Pairwise Moment.Apart
  occurs : ∀ now ∈ log, ¬now.Refuses → ∀ v, now.Occurs v → v.Originated log

namespace Value.Originated

theorem mono (known : v.Originated log) (sub : log ⊆ log') : v.Originated log' := by
  cases v with
  | function f =>
    cases f with
    | builtin f => trivial
    | closure f =>
      obtain ⟨now, mem, originates⟩ := known
      exact ⟨now, sub mem, originates⟩
  | iterable elements => exact known
  | _ => trivial

theorem element {vs : List Value} (known : (Value.iterable vs).Originated log) (mem : v ∈ vs) :
    v.Originated log := by
  obtain ⟨n, rfl⟩ := known v mem
  trivial

end Value.Originated

theorem Place.Originated.mono (known : p.Originated base h) (grows : h.Extends Set.univ h') :
    p.Originated base h' where
  inside := Nat.lt_of_lt_of_le known.inside grows.size_le
  scope := by
    rw [grows.parent _ known.inside]
    exact known.scope

theorem Closure.IsBound.inside (bound : f.IsBound base h) : f.captured < h.size :=
  Heap.lt_size_of_binds (Heap.binds_iff.mpr bound.name)

theorem Closure.IsBound.mono (bound : f.IsBound base h) (grows : h.Extends Set.univ h') :
    f.IsBound base h' where
  scope := by
    rw [grows.parent _ bound.inside]
    exact bound.scope
  name := grows.mem_names bound.name

theorem Heap.HasMembers.mono (members : h.HasMembers base m) (grows : h.Extends Set.univ h') :
    h'.HasMembers base m where
  young := members.young
  inside := Nat.lt_of_lt_of_le members.inside grows.size_le
  none := (grows.parent m members.inside).trans members.none

namespace Heap.Originated

/-- After a step that has noted nothing. -/
theorem grow (known : h.Originated base log) (grows : h.Extends Set.univ h')
    (bound : h'.Holds fun v => v.Originated log) : h'.Originated base log where
  inside := Nat.lt_of_lt_of_le known.inside grows.size_le
  bound := bound
  makes now mem f made := (known.makes now mem f made).mono grows
  builds now mem m methods built := (known.builds now mem m methods built).mono grows
  apart := known.apart
  occurs := known.occurs

theorem put (known : h.Originated base log) (value : v.Originated log) (s : ScopeId) (n : String) :
    (h.put s n v).Originated base log :=
  known.grow ((Heap.Extends.put ..).of_old fun _ _ _ => Set.mem_univ _) (known.bound.put value)

/-- After a step that has noted what it does. -/
theorem append (known : h.Originated base log) (grows : h.Extends Set.univ h')
    (bound : h'.Holds fun v => v.Originated (log ++ [now]))
    (makes : ∀ f, now.act = .makes f → f.IsBound base h')
    (builds : ∀ m methods, now.act = .builds m methods → h'.HasMembers base m)
    (apart : ∀ before ∈ log, before.Apart now)
    (occurs : ¬now.Refuses → ∀ v, now.Occurs v → v.Originated (log ++ [now])) :
    h'.Originated base (log ++ [now]) where
  inside := Nat.lt_of_lt_of_le known.inside grows.size_le
  bound := bound
  makes before mem f made := by
    rcases List.mem_append.mp mem with old | new
    · exact (known.makes before old f made).mono grows
    · obtain rfl := List.mem_singleton.mp new
      exact makes f made
  builds before mem m methods built := by
    rcases List.mem_append.mp mem with old | new
    · exact (known.builds before old m methods built).mono grows
    · obtain rfl := List.mem_singleton.mp new
      exact builds m methods built
  apart := List.pairwise_append.mpr ⟨known.apart, List.pairwise_singleton _ _,
    fun before mem next last => List.mem_singleton.mp last ▸ apart before mem⟩
  occurs before mem accepted v there := by
    rcases List.mem_append.mp mem with old | new
    · exact (known.occurs before old accepted v there).mono (List.subset_append_left _ _)
    · obtain rfl := List.mem_singleton.mp new
      exact occurs accepted v there

/-- A closure comes from a `DEF` that has bound it, or it captures the members of an object. -/
theorem cases_of_originates (known : h.Originated base log) (mem : now ∈ log)
    (originates : now.Originates f) : f.IsBound base h ∨ h.HasMembers base f.captured := by
  unfold Moment.Originates at originates
  cases act : now.act with
  | makes g =>
    rw [act] at originates
    obtain ⟨rfl, _⟩ := originates
    exact Or.inl (known.makes now mem g act)
  | builds m methods =>
    rw [act] at originates
    obtain ⟨_, _, rfl⟩ := originates
    exact Or.inr (known.builds now mem m methods act)
  | _ =>
    rw [act] at originates
    exact originates.elim

/-- A name that is free in a place has not been given to a closure there before. -/
theorem apart_makes (known : h.Originated base log) (place : p.Originated base h)
    (captured : f.captured = p.scope) : ∀ before ∈ log, before.Apart ⟨p, h, .makes f⟩ := by
  rintro before mem g _ originates ⟨rfl, free⟩ scope name
  rcases known.cases_of_originates mem originates with bound | members
  · exact free (scope ▸ name ▸ bound.name)
  · -- The members of an object are neither the scope of the script nor inside another one.
    rw [scope, captured] at members
    rcases place.scope with same | some
    · exact absurd (same ▸ members.young) (Nat.lt_irrefl _)
    · rw [members.none] at some
      cases some

/-- The members of a new object have not been captured before. -/
theorem apart_builds (known : h.Originated base log) (methods : List Method) (h' : Heap Value) :
    ∀ before ∈ log, before.Apart ⟨p, h', .builds h.size methods⟩ := by
  rintro before mem f _ originates ⟨_, _, rfl⟩ scope
  have inside : f.captured < h.size := by
    rcases known.cases_of_originates mem originates with bound | members
    · exact bound.inside
    · exact members.inside
  exact absurd scope (Nat.ne_of_lt inside)

end Heap.Originated

/-! ## The discipline -/

/-- Closures have an origin, everywhere and at all times. -/
def Discipline.origins (base : ScopeId) : Discipline where
  heap h log := h.Originated base log
  value _ log v := v.Originated log
  place h _ p := p.Originated base h

namespace Discipline

/-- A `DEF` that is not refused. -/
theorem origins_made (known : h.Originated base log) (place : p.Originated base h)
    (captured : f.captured = p.scope)
    (free : f.definition.name ∉ (h.bindings p.scope).names) :
    (h.put p.scope f.definition.name (.function (.closure f))).Originated base
        (log ++ [⟨p, h, .makes f⟩]) ∧
      (Value.function (.closure f)).Originated (log ++ [⟨p, h, .makes f⟩]) := by
  have sub : log ⊆ log ++ [⟨p, h, .makes f⟩] := List.subset_append_left _ _
  have grows : h.Extends Set.univ (h.put p.scope f.definition.name (.function (.closure f))) :=
    (Heap.Extends.put ..).of_old fun _ _ _ => Set.mem_univ _
  have value : (Value.function (.closure f)).Originated (log ++ [⟨p, h, .makes f⟩]) :=
    ⟨_, List.mem_append_right _ List.mem_cons_self, rfl, captured ▸ free⟩
  have older : h.Holds fun v => v.Originated (log ++ [⟨p, h, .makes f⟩]) :=
    known.bound.imp fun _ known => known.mono sub
  refine ⟨known.append grows (older.put value) ?_ ?_ (known.apart_makes place captured) ?_, value⟩
  · rintro g ⟨⟩
    refine ⟨?_, ?_⟩
    · rw [captured]
      exact (place.mono grows).scope
    · rw [captured]
      exact (Heap.mem_names_put place.inside _ _ _ _).mpr (Or.inl ⟨rfl, rfl⟩)
  · rintro m methods ⟨⟩
  · rintro _ v (⟨s, n, found⟩ | rfl)
    · exact older s n v found
    · exact value

/-- What happens while nothing is bound: no closure comes from there, or those of a new object. -/
theorem origins_note (known : h.Originated base log) (place : p.Originated base h)
    (permits : (origins base).Permits h log p act) : h.Originated base (log ++ [⟨p, h, act⟩]) := by
  have sub : log ⊆ log ++ [⟨p, h, act⟩] := List.subset_append_left _ _
  refine known.append (.refl _ _) (known.bound.imp fun _ known => known.mono sub) ?_ ?_ ?_ ?_
  · rintro f rfl
    obtain ⟨captured, _, bound⟩ := permits
    rw [← captured] at bound
    exact ⟨captured ▸ place.scope, bound⟩
  · rintro m methods rfl
    obtain ⟨h₀, rfl, rfl, before⟩ := permits
    exact ⟨before.inside, Heap.lt_size_root h₀ .empty, Heap.parent?_root_self h₀ .empty⟩
  · intro before mem
    cases act with
    | makes f =>
      obtain ⟨captured, _, bound⟩ := permits
      rintro _ g _ ⟨rfl, free⟩
      exact absurd (captured ▸ bound) free
    | builds m methods =>
      obtain ⟨h₀, rfl, rfl, older⟩ := permits
      exact older.apart_builds methods _ before mem
    | _ => exact fun _ _ _ impossible => impossible.elim
  · intro accepted v there
    refine Value.Originated.mono (permits.value_of_occurs ?_ known.bound
      (fun _ _ => Value.Originated.element) there) sub
    rintro f rfl
    obtain ⟨captured, _, bound⟩ := permits
    exact accepted ⟨f, rfl, captured ▸ bound⟩

theorem kept_origins (base : ScopeId) : (origins base).Kept where
  grow_value _ longer known := known.mono longer.subset
  grow_place grows _ known := known.mono grows
  plain {_ _ v} plain := by cases v <;> trivial
  object _ _ _ _ := trivial
  integers _ _ a b v mem := by
    obtain ⟨k, _, rfl⟩ := List.mem_map.mp mem
    exact ⟨_, rfl⟩
  element known mem := Value.Originated.element known mem
  bound known found := known.bound _ _ _ found
  made known place captured _ free := origins_made known place captured free
  method {_ log _ m methods before after method} known mem built split bound unbound := by
    have first : methods.find? (fun d => d.definition.name == method.definition.name) =
        some method := by
      rw [split, List.find?_append, List.find?_eq_none.mpr ?_, Option.none_or, List.find?_cons,
        beq_self_eq_true]
      intro d mem same
      exact unbound (eq_of_beq same ▸ bound d mem)
    have value : (Value.function (.closure ⟨method.definition, m, true⟩)).Originated log := by
      refine ⟨_, mem, ?_⟩
      unfold Moment.Originates
      rw [built]
      exact ⟨method, first, rfl⟩
    exact known.put value _ _
  root known := known.grow (.root _ _ _) known.bound.root
  child s _ known bound := known.grow (.child _ _ s _) (known.bound.child s bound)
  put s n _ known value := known.put value s n
  note known place permits := origins_note known place permits
  inner {h _ p} b known place := by
    refine ⟨Heap.lt_size_child h p.scope b, Or.inr ?_⟩
    rw [Heap.parent?_child_self place.inside]
    rfl
  call {h _ _ f _} b c _ _ _ := by
    refine ⟨Heap.lt_size_child _ h.size c, Or.inr ?_⟩
    rw [Heap.parent?_child_self (Heap.lt_size_child h f.captured b)]
    rfl

end Discipline

/-! ## From the prelude on -/

namespace RunSession

/-- What is known of the moments of a session, and of the scopes in the end. -/
theorem moments_originated (fixtures : Bool) (depth : Nat) (scripts : List Script) :
    (ended fixtures depth scripts).heap.Originated (start fixtures).scope
      (moments fixtures depth scripts) := by
  have started : (start fixtures).heap.Originated (start fixtures).scope [] := by
    refine ⟨(start_descended fixtures).inside, ?_, ?_, ?_, .nil, ?_⟩
    · refine Heap.Holds.imp (start_holds fixtures) fun v known => ?_
      cases v with
      | function f =>
        cases f with
        | builtin f => trivial
        | closure f => cases known
      | iterable elements => exact fun v mem => exists_integer_of_isStartValue known mem
      | _ => trivial
    all_goals
      intro now mem
      cases mem
  have ready : (Discipline.origins (start fixtures).scope).Ready (start fixtures).scope
      (start fixtures).stage := ⟨rfl, started, started.inside, Or.inl rfl⟩
  exact (Discipline.session_ready (Discipline.kept_origins _) depth scripts ready).heap

variable {fixtures : Bool} {depth : Nat} {scripts : List Script} {now now' : Moment}

/-- Two closures that are about at any moments of a session are equal exactly if they are the same
closure and come from the same moment: the execution of a `DEF`, or of an object expression. -/
theorem equals_iff (mem : now ∈ moments fixtures depth scripts)
    (mem' : now' ∈ moments fixtures depth scripts) (accepted : ¬now.Refuses)
    (accepted' : ¬now'.Refuses) (there : now.Occurs (.function (.closure f)))
    (there' : now'.Occurs (.function (.closure g))) :
    (Callable.closure f).equals (.closure g) = true ↔
      f = g ∧ ∃ (i : Nat) (origin : Moment), (moments fixtures depth scripts)[i]? = some origin ∧
        origin.Originates f ∧ origin.Originates g := by
  have known := moments_originated fixtures depth scripts
  obtain ⟨first, firstMem, originates⟩ := known.occurs now mem accepted _ there
  obtain ⟨second, secondMem, originates'⟩ := known.occurs now' mem' accepted' _ there'
  rw [Callable.equals, Bool.and_eq_true, beq_iff_eq, beq_iff_eq]
  constructor
  · rintro ⟨name, captured⟩
    obtain ⟨i, ilt, rfl⟩ := List.getElem_of_mem firstMem
    obtain ⟨j, jlt, rfl⟩ := List.getElem_of_mem secondMem
    -- Of two different moments, the later one could not have bound the name again.
    have apart := List.pairwise_iff_getElem.mp known.apart
    rcases Nat.lt_trichotomy i j with lt | rfl | gt
    · exact absurd name (apart i j ilt jlt lt f g originates originates' captured)
    · exact ⟨originates.eq originates' name, i, _, List.getElem?_eq_getElem ilt, originates,
        originates'⟩
    · exact absurd name.symm (apart j i jlt ilt gt g f originates' originates captured.symm)
  · rintro ⟨rfl, _⟩
    exact ⟨rfl, rfl⟩

end RunSession

end GradualScript
