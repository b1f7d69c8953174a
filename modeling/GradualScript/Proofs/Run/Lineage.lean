/-
# GradualScript.Proofs.Run.Lineage -- where closures come from

A closure comes from a method of an object expression or from a `DEF`, and a `DEF` is executed at
the top of a script or in the body of another closure. The `Lineage` of a closure goes back along
this way to its home: the members of the object in one of whose methods it all began, or none if it
began at the top. Methods capture the members of their object and nothing else, and every other
scope is made inside the one that is active. So the home of a closure can be seen from its captured
scope: it is the outermost scope there, and for a closure without a home that is the scope of the
script.

This is kept in one discipline with what is known of sequences, which hold integers only, and of
objects, whose members are a scope of the heap. It holds of every moment of every session that
starts from a prelude (`RunSession.moments_descended`).
-/

import GradualScript.Proofs.Run.Discipline
import GradualScript.Proofs.Run.Names

namespace GradualScript

/-! ## Lineage -/

/-- The code of a closure goes back to a method of the object with the members `m` (its home is
`some m`), or to the top of a script (`none`). -/
inductive Lineage (log : List Moment) : Option ScopeId → Closure → Prop
  | method {now : Moment} {m : ScopeId} {methods : List Method} {method : Method}
      (mem : now ∈ log) (built : now.act = .builds m methods) (declared : method ∈ methods) :
      Lineage log (some m) ⟨method.definition, m, true⟩
  | top {now : Moment} {f : Closure}
      (mem : now ∈ log) (made : now.act = .makes f) (outside : now.place.call = none) :
      Lineage log none f
  | inner {now : Moment} {f : Closure} {c : Activation} {home : Option ScopeId}
      (mem : now ∈ log) (made : now.act = .makes f) (inside : now.place.call = some c)
      (outer : Lineage log home c.callee) : Lineage log home f

theorem Lineage.mono {log log' : List Moment} {home : Option ScopeId} {f : Closure}
    (lineage : Lineage log home f) (sub : log ⊆ log') : Lineage log' home f := by
  induction lineage with
  | method mem built declared => exact .method (sub mem) built declared
  | top mem made outside => exact .top (sub mem) made outside
  | inner mem made inside _ ih => exact .inner (sub mem) made inside ih

/-- A value is there at a moment: bound in some scope, come to, called, handed over or next in a
loop. -/
def Moment.Occurs (now : Moment) (v : Value) : Prop :=
  (∃ s n, now.heap.resolveLocal s n = some v) ∨
  match now.act with
  | .yields u | .binds _ u | .assigns u _ => v = u
  | .calls f arguments => v = .function f ∨ v ∈ arguments
  | .makes f => v = .function (.closure f)
  | .evaluates _ | .executes _ | .builds _ _ => False

/-- What occurs at a moment at which no closure is made is in a scope already, or the act brings it
up. -/
theorem Discipline.Permits.value_of_occurs {D : Discipline} {h : Heap Value} {log : List Moment}
    {p : Place} {act : Act} {v : Value} (permits : D.Permits h log p act)
    (other : ∀ f, act ≠ .makes f)
    (bound : ∀ s n v, h.resolveLocal s n = some v → D.value h log v)
    (element : ∀ vs v, D.value h log (.iterable vs) → v ∈ vs → D.value h log v)
    (there : (⟨p, h, act⟩ : Moment).Occurs v) : D.value h log v := by
  rcases there with ⟨s, n, found⟩ | there
  · exact bound s n v found
  cases act with
  | evaluates e => cases there
  | executes x => cases there
  | builds m methods => cases there
  | makes f => exact (other f rfl).elim
  | yields u => exact there ▸ permits
  | binds name u =>
    obtain ⟨elements, mem, known⟩ := permits
    exact there ▸ element elements u known mem
  | assigns u name => exact there ▸ permits
  | calls f arguments =>
    rcases there with rfl | given
    · exact permits.1
    · exact permits.2 v given

/-! ## What is known of the moments of a run -/

variable {base s m : ScopeId} {h h' : Heap Value} {log log' : List Moment} {p : Place} {v : Value}
  {now : Moment} {f : Closure} {c : Activation} {home : Option ScopeId}

/-- A closure captures a scope that exists, and has a lineage. So does the scope of an object's
members exist. A sequence holds integers. -/
def Value.Descended (log : List Moment) (h : Heap Value) : Value → Prop
  | .function (.closure f) => f.captured < h.size ∧ ∃ home, Lineage log home f
  | .object _ m => m < h.size
  | .iterable elements => ∀ v ∈ elements, ∃ n, v = .integer n
  | _ => True

/-- The scope `s`, in which the call is, has been made for it, inside the scope that the callee has
captured. Of the scopes around that, none is one of the call. -/
structure Activation.Descended (log : List Moment) (h : Heap Value) (s : ScopeId)
    (c : Activation) : Prop where
  callee : (Value.function (.closure c.callee)).Descended log h
  called : ∃ caller ∈ log, (∃ arguments, caller.act = .calls (.closure c.callee) arguments) ∧
    caller.heap.size = c.since
  chain : ∃ made, h.chain s = made ++ h.chain c.callee.captured ∧ ∀ t ∈ made, c.since ≤ t

/-- A place at the top of a script is inside the scope of the script; one in a call is inside what
the callee has captured. -/
structure Place.Descended (base : ScopeId) (log : List Moment) (h : Heap Value) (p : Place) :
    Prop where
  inside : p.scope < h.size
  top : p.call = none → h.outermost p.scope = base
  call : ∀ c, p.call = some c → c.Descended log h p.scope

/-- What is known of a moment, then and there. -/
structure Moment.Descended (base : ScopeId) (log : List Moment) (now : Moment) : Prop where
  place : now.place.Descended base log now.heap
  occurs : ∀ v, now.Occurs v → v.Descended log now.heap
  binds : ∀ name v, now.act = .binds name v → ∃ n, v = .integer n
  makes : ∀ f, now.act = .makes f → f.captured = now.place.scope ∧ f.isMethod = false
  builds : ∀ m methods, now.act = .builds m methods →
    base < m ∧ m < now.heap.size ∧ now.heap.parent? m = none

/-- What is known of the heap, given the moments that it has passed. -/
structure Heap.Descended (base : ScopeId) (log : List Moment) (h : Heap Value) : Prop where
  inside : base < h.size
  bound : h.Holds fun v => v.Descended log h
  moments : ∀ now ∈ log, now.Descended base log ∧ now.heap.Extends Set.univ h

/-! ### Growth -/

theorem Value.Descended.mono (known : v.Descended log h) (grows : h.Extends Set.univ h')
    (sub : log ⊆ log') : v.Descended log' h' := by
  cases v with
  | function f =>
    cases f with
    | builtin f => trivial
    | closure f =>
      obtain ⟨inside, home, lineage⟩ := known
      exact ⟨Nat.lt_of_lt_of_le inside grows.size_le, home, lineage.mono sub⟩
  | iterable elements => exact known
  | object name m => exact Nat.lt_of_lt_of_le known grows.size_le
  | _ => trivial

theorem Value.Descended.element {vs : List Value} (known : (Value.iterable vs).Descended log h)
    (mem : v ∈ vs) : v.Descended log h := by
  obtain ⟨n, rfl⟩ := known v mem
  trivial

theorem Activation.Descended.mono (known : c.Descended log h s) (inside : s < h.size)
    (grows : h.Extends Set.univ h') (sub : log ⊆ log') : c.Descended log' h' s where
  callee := known.callee.mono grows sub
  called := by
    obtain ⟨caller, mem, call⟩ := known.called
    exact ⟨caller, sub mem, call⟩
  chain := by
    rw [grows.chain inside, grows.chain known.callee.1]
    exact known.chain

theorem Place.Descended.mono (known : p.Descended base log h) (grows : h.Extends Set.univ h')
    (sub : log ⊆ log') : p.Descended base log' h' where
  inside := Nat.lt_of_lt_of_le known.inside grows.size_le
  top outside := by
    rw [Heap.outermost_of_parents grows.parent known.inside]
    exact known.top outside
  call c here := (known.call c here).mono known.inside grows sub

theorem Moment.Descended.mono (known : now.Descended base log) (sub : log ⊆ log') :
    now.Descended base log' where
  place := known.place.mono (.refl _ _) sub
  occurs v there := (known.occurs v there).mono (.refl _ _) sub
  binds := known.binds
  makes := known.makes
  builds := known.builds

/-- The scopes of a heap after a step that has noted nothing. -/
theorem Heap.Descended.grow (known : h.Descended base log) (grows : h.Extends Set.univ h')
    (bound : h'.Holds fun v => v.Descended log h) : h'.Descended base log where
  inside := Nat.lt_of_lt_of_le known.inside grows.size_le
  bound := bound.imp fun _ known => known.mono grows (List.Subset.refl _)
  moments now mem := ⟨(known.moments now mem).1, (known.moments now mem).2.trans grows⟩

/-! ### Homes -/

/-- The scopes of a call end where those of its callee do. -/
theorem Activation.Descended.outermost (known : c.Descended log h s) :
    h.outermost c.callee.captured = h.outermost s := by
  obtain ⟨made, chain, _⟩ := known.chain
  refine Heap.outermost_of_mem_chain ?_
  rw [chain]
  exact List.mem_append_right made (h.mem_chain_self c.callee.captured)

namespace Lineage

/-- The scope that a closure captures ends where its home says. -/
theorem outermost (lineage : Lineage log home f) (known : h.Descended base log) :
    f.captured < h.size ∧ h.outermost f.captured = home.getD base := by
  induction lineage with
  | method mem built declared =>
    obtain ⟨then_, grows⟩ := known.moments _ mem
    obtain ⟨_, inside, none⟩ := then_.builds _ _ built
    refine ⟨Nat.lt_of_lt_of_le inside grows.size_le, Heap.outermost_of_no_parent ?_⟩
    rw [grows.parent _ inside]
    exact none
  | top mem made outside =>
    obtain ⟨then_, grows⟩ := known.moments _ mem
    have inside := then_.place.inside
    rw [(then_.makes _ made).1]
    refine ⟨Nat.lt_of_lt_of_le inside grows.size_le, ?_⟩
    rw [Heap.outermost_of_parents grows.parent inside]
    exact then_.place.top outside
  | @inner now f c home mem made around _ ih =>
    -- The `DEF` is in a scope of the call, which ends where the scope that the callee has captured
    -- ends.
    obtain ⟨then_, grows⟩ := known.moments _ mem
    have inside := then_.place.inside
    have call := then_.place.call c around
    rw [(then_.makes _ made).1]
    refine ⟨Nat.lt_of_lt_of_le inside grows.size_le, ?_⟩
    rw [Heap.outermost_of_parents grows.parent inside, ← call.outermost,
      ← Heap.outermost_of_parents grows.parent call.callee.1]
    exact ih.2

/-- A home is younger than the scope of the script. -/
theorem base_lt (lineage : Lineage log (some m) f) (known : h.Descended base log) : base < m := by
  generalize same : some m = home at lineage
  induction lineage with
  | method mem built declared =>
    obtain rfl := Option.some.inj same
    exact ((known.moments _ mem).1.builds _ _ built).1
  | top mem made outside => cases same
  | inner mem made around _ ih => exact ih same

/-- A method comes from the object whose members it captures. -/
theorem exists_builds (lineage : Lineage log home f) (known : h.Descended base log)
    (method : f.isMethod = true) : ∃ now ∈ log, ∃ methods, now.act = .builds f.captured methods ∧
      (∃ d ∈ methods, d.definition = f.definition) ∧ home = some f.captured := by
  cases lineage with
  | method mem built declared => exact ⟨_, mem, _, built, ⟨_, declared, rfl⟩, rfl⟩
  | top mem made outside =>
    rw [((known.moments _ mem).1.makes _ made).2] at method
    cases method
  | inner mem made around _ =>
    rw [((known.moments _ mem).1.makes _ made).2] at method
    cases method

end Lineage

/-! ## The discipline -/

/-- Closures have a lineage and sequences hold integers, everywhere and at all times. -/
def Discipline.descent (base : ScopeId) : Discipline where
  heap h log := h.Descended base log
  value h log v := v.Descended log h
  place h log p := p.Descended base log h

namespace Discipline

/-- A `DEF` continues the lineage of the call that it is executed in. -/
theorem descent_made (place : p.Descended base log h) (mem : ⟨p, h, .makes f⟩ ∈ log)
    (captured : f.captured = p.scope) : (Value.function (.closure f)).Descended log h := by
  refine ⟨captured ▸ place.inside, ?_⟩
  cases call : p.call with
  | none => exact ⟨none, .top mem rfl call⟩
  | some c =>
    obtain ⟨_, home, lineage⟩ := (place.call c call).callee
    exact ⟨home, .inner mem rfl call lineage⟩

theorem descent_append {act : Act} (known : h.Descended base log)
    (here : Moment.Descended base (log ++ [⟨p, h, act⟩]) ⟨p, h, act⟩) :
    h.Descended base (log ++ [⟨p, h, act⟩]) := by
  have sub : log ⊆ log ++ [⟨p, h, act⟩] := List.subset_append_left _ _
  refine ⟨known.inside, known.bound.imp fun _ known => known.mono (.refl _ _) sub, ?_⟩
  intro now mem
  rcases List.mem_append.mp mem with old | new
  · exact ⟨(known.moments now old).1.mono sub, (known.moments now old).2⟩
  · obtain rfl := List.mem_singleton.mp new
    exact ⟨here, .refl _ _⟩

/-- A closure that is made, whether it is bound or not, descends from this very moment. -/
theorem descent_makes (known : h.Descended base log) (place : p.Descended base log h)
    (captured : f.captured = p.scope) (function : f.isMethod = false) :
    h.Descended base (log ++ [⟨p, h, .makes f⟩]) := by
  have sub : log ⊆ log ++ [⟨p, h, .makes f⟩] := List.subset_append_left _ _
  have place' := place.mono (.refl _ _) sub
  refine descent_append known ⟨place', ?_, ?_, ?_, ?_⟩
  · rintro v (⟨s, n, found⟩ | rfl)
    · exact (known.bound s n v found).mono (.refl _ _) sub
    · exact descent_made place' (List.mem_append_right _ List.mem_cons_self) captured
  · rintro name v ⟨⟩
  · rintro g ⟨⟩
    exact ⟨captured, function⟩
  · rintro m methods ⟨⟩

theorem descent_note {act : Act} (known : h.Descended base log) (place : p.Descended base log h)
    (permits : (descent base).Permits h log p act) : h.Descended base (log ++ [⟨p, h, act⟩]) := by
  have sub : log ⊆ log ++ [⟨p, h, act⟩] := List.subset_append_left _ _
  have older : ∀ {v : Value}, v.Descended log h → v.Descended (log ++ [⟨p, h, act⟩]) h :=
    fun known => known.mono (.refl _ _) sub
  by_cases makes : ∃ f, act = .makes f
  · obtain ⟨f, rfl⟩ := makes
    exact descent_makes known place permits.1 permits.2.1
  have occurs : ∀ v, (⟨p, h, act⟩ : Moment).Occurs v → v.Descended (log ++ [⟨p, h, act⟩]) h :=
    fun v there => older (permits.value_of_occurs (fun f same => makes ⟨f, same⟩) known.bound
      (fun _ _ => Value.Descended.element) there)
  refine descent_append known ⟨place.mono (.refl _ _) sub, occurs, ?_, ?_, ?_⟩
  · rintro name v rfl
    obtain ⟨elements, mem, known⟩ := permits
    exact known v mem
  · rintro f rfl
    exact (makes ⟨f, rfl⟩).elim
  · rintro m methods rfl
    obtain ⟨h₀, rfl, rfl, before⟩ := permits
    exact ⟨before.inside, Heap.lt_size_root h₀ .empty, Heap.parent?_root_self h₀ .empty⟩

theorem descent_put (known : h.Descended base log) (value : v.Descended log h) (s : ScopeId)
    (n : String) : (h.put s n v).Descended base log :=
  known.grow ((Heap.Extends.put ..).of_old fun _ _ _ => Set.mem_univ _) (known.bound.put value)

/-- A new scope inside the active one. -/
theorem descent_inner (b : Bindings Value) (known : h.Descended base log)
    (place : p.Descended base log h) :
    Place.Descended base log (h.child p.scope b).2 { p with scope := h.size } := by
  have inside := place.inside
  have link := Heap.parent?_child_self inside b
  have grows : h.Extends Set.univ (h.child p.scope b).2 := .child _ h p.scope b
  refine ⟨Heap.lt_size_child h p.scope b, fun outside => ?_, fun c here => ?_⟩
  · rw [Heap.outermost_child inside b]
    exact place.top outside
  · have call := (place.call c here).mono inside grows (List.Subset.refl log)
    obtain ⟨made, chain, young⟩ := call.chain
    obtain ⟨caller, mem, _, size⟩ := call.called
    -- The new scope joins those that have been made for the call, being younger than its first.
    refine ⟨call.callee, call.called, h.size :: made, ?_, ?_⟩
    · rw [Heap.chain_of_parent link, chain]
      rfl
    · rintro t (_ | ⟨_, mem⟩)
      · rw [← size]
        exact (known.moments caller mem).2.size_le
      · exact young t mem

/-- The two scopes of a call, inside the one that the callee has captured. -/
theorem descent_call {arguments : List Value} (b d : Bindings Value)
    (mem : ⟨p, h, .calls (.closure f) arguments⟩ ∈ log)
    (known : (Value.function (.closure f)).Descended log h) :
    Place.Descended base log ((h.child f.captured b).2.child h.size d).2
      ⟨(h.child f.captured b).2.size, some ⟨f, h.size⟩⟩ := by
  have first : h.Extends Set.univ (h.child f.captured b).2 := .child _ h f.captured b
  have second := Heap.Extends.child Set.univ (h.child f.captured b).2 h.size d
  have bound := Heap.lt_size_child h f.captured b
  refine ⟨Heap.lt_size_child _ _ _, fun outside => (by cases outside), ?_⟩
  rintro c ⟨⟩
  refine ⟨known.mono (first.trans second) (List.Subset.refl log), ?_, ?_⟩
  · exact ⟨_, mem, ⟨arguments, rfl⟩, rfl⟩
  · refine ⟨[(h.child f.captured b).2.size, h.size], ?_, ?_⟩
    · rw [Heap.chain_of_parent (Heap.parent?_child_self bound d), second.chain bound,
        Heap.chain_of_parent (Heap.parent?_child_self known.1 b),
          (first.trans second).chain known.1,
        first.chain known.1]
      rfl
    · intro t mem
      simp only [List.mem_cons, List.not_mem_nil, or_false] at mem
      rcases mem with rfl | rfl
      · exact Nat.le_of_lt bound
      · exact Nat.le_refl _

theorem kept_descent (base : ScopeId) : (descent base).Kept where
  grow_value grows longer known := known.mono grows longer.subset
  grow_place grows longer known := known.mono grows longer.subset
  plain {_ _ v} plain := by cases v <;> trivial
  object _ known mem built := by
    obtain ⟨then_, grows⟩ := known.moments _ mem
    exact Nat.lt_of_lt_of_le (then_.builds _ _ built).2.1 grows.size_le
  integers _ _ a b v mem := by
    obtain ⟨k, _, rfl⟩ := List.mem_map.mp mem
    exact ⟨_, rfl⟩
  element known mem := Value.Descended.element known mem
  bound known found := known.bound _ _ _ found
  made {h log p f} known place captured function _ := by
    have noted := descent_makes known place captured function
    have grows : h.Extends Set.univ (h.put p.scope f.definition.name (.function (.closure f))) :=
      (Heap.Extends.put ..).of_old fun _ _ _ => Set.mem_univ _
    have value : (Value.function (.closure f)).Descended (log ++ [⟨p, h, .makes f⟩]) h :=
      descent_made (place.mono (.refl _ _) (List.subset_append_left _ _))
        (List.mem_append_right _ List.mem_cons_self) captured
    exact ⟨descent_put noted value _ _, value.mono grows (List.Subset.refl _)⟩
  method {h log _ m methods _ _ method} known mem built split _ _ := by
    have declared : method ∈ methods := split ▸ List.mem_append_right _ List.mem_cons_self
    have lineage := Lineage.method mem built declared
    have value : (Value.function (.closure ⟨method.definition, m, true⟩)).Descended log h :=
      ⟨(lineage.outermost known).1, _, lineage⟩
    exact descent_put known value _ _
  root known := known.grow (.root _ _ _) known.bound.root
  child s _ known bound := known.grow (.child _ _ s _) (known.bound.child s bound)
  put s n _ known value := descent_put known value s n
  note known place permits := descent_note known place permits
  inner b known place := descent_inner b known place
  call b d _ mem known := descent_call b d mem known

end Discipline

/-! ## From the prelude on -/

namespace RunSession

theorem start_descended (fixtures : Bool) :
    (start fixtures).heap.Descended (start fixtures).scope [] where
  inside := by cases fixtures <;> decide
  bound := by
    have inside : ∀ m ∈ startObjects fixtures, m < (start fixtures).heap.size := by
      cases fixtures <;> decide
    refine Heap.Holds.imp (start_holds fixtures) fun v known => ?_
    cases v with
    | function f =>
      cases f with
      | builtin f => trivial
      | closure f => cases known
    | iterable elements => exact fun v mem => exists_integer_of_isStartValue known mem
    | object name m =>
      exact inside m (List.contains_iff_mem.mp known)
    | _ => trivial
  moments _ mem := by cases mem

/-- What is known of the moments of a session, and of the scopes in the end. -/
theorem moments_descended (fixtures : Bool) (depth : Nat) (scripts : List Script) :
    (ended fixtures depth scripts).heap.Descended (start fixtures).scope
      (moments fixtures depth scripts) := by
  have ready : (Discipline.descent (start fixtures).scope).Ready (start fixtures).scope
      (start fixtures).stage := by
    refine ⟨rfl, start_descended fixtures, (start_descended fixtures).inside, fun _ => ?_, ?_⟩
    · exact Heap.outermost_of_no_parent (start_parent? fixtures _)
    · intro c call
      cases call
  exact (Discipline.session_ready (Discipline.kept_descent _) depth scripts ready).heap

end RunSession

end GradualScript
