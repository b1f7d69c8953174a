/-
# GradualScript.Proofs.Run.Discipline -- what all moments of a run have in common

Everything that a script reads and calls has been put into the heap before, by the script itself or
by the prelude. What holds of all values that a run ever comes to is therefore shown in one go with
what holds of the heap and of the places in which code runs. A `Discipline` is such a triple of
conditions, each of them relative to what has happened so far, and it is `Kept` if it passes from
the operands of each operation on values and scopes to its result.

The walk over the evaluator is made once, here, for any discipline that is kept (`evaluate_runs`,
`execute_runs`, `callClosure_runs`). It shows four things of the staged evaluator, also where it is
stopped: it does what the evaluator does, it ends in the place in which it began, it only adds to
the world (`Stage.Grows`), and it keeps the discipline.
-/

import GradualScript.Proofs.Run.Stage
import GradualScript.Proofs.Run.Extends
import GradualScript.Proofs.Run.Operands
import Mathlib.Data.List.Infix

namespace GradualScript

/-- A round of a loop, and the rounds after it. -/
theorem Run.overElements_cons (s : ScopeId) (name : String) (body : ScopeId → Run Flow) (v : Value)
    (rest : List Value) : overElements s name body (v :: rest) =
      (child s (.ofList [(name, v)]) >>= fun t => child t .empty >>= body) >>= fun
        | .returned v => pure (.returned v)
        | .value _ => overElements s name body rest := rfl

/-! ## Growth -/

namespace Stage

variable {free free' : Set (ScopeId × String)} {r r' r'' : Stage} {h : Heap Value} {act : Act}
  {p : Place}

/-- From `r` to `r'` the run has come back to its place, and the world has only grown. A scope of
`r` has got a name only if it is in `free`, or if a property was assigned that only a prototype
had. -/
structure Grows (free : Set (ScopeId × String)) (r r' : Stage) : Prop where
  place : r'.place = r.place
  heap : r.heap.Extends Set.univ r'.heap
  output : r.world.output.toList <+: r'.world.output.toList
  moments : r.moments <+: r'.moments
  gained : ∀ s < r.heap.size, ∀ n ∈ (r'.heap.bindings s).names,
    n ∈ (r.heap.bindings s).names ∨ (s, n) ∈ free ∨
      ∃ now ∈ r'.moments.drop r.moments.length, now.Shadows s n

/-- The stage with another heap. -/
def withHeap (r : Stage) (h : Heap Value) : Stage := { r with world := { r.world with heap := h } }

/-- The stage after something has happened. -/
def noted (r : Stage) (act : Act) : Stage :=
  { r with moments := r.moments ++ [⟨r.place, r.heap, act⟩] }

/-- The stage in another place. -/
def moved (r : Stage) (p : Place) : Stage := { r with place := p }

namespace Grows

theorem refl (free : Set (ScopeId × String)) (r : Stage) : r.Grows free r where
  place := rfl
  heap := .refl _ _
  output := List.prefix_rfl
  moments := List.prefix_rfl
  gained _ _ _ mem := Or.inl mem

theorem trans (first : r.Grows free r') (second : r'.Grows free r'') : r.Grows free r'' where
  place := second.place.trans first.place
  heap := first.heap.trans second.heap
  output := first.output.trans second.output
  moments := first.moments.trans second.moments
  gained s old n mem := by
    rcases second.gained s (Nat.lt_of_lt_of_le old first.heap.size_le) n mem with
      before | allowed | ⟨now, later, shadows⟩
    · rcases first.gained s old n before with before | allowed | ⟨now, since, shadows⟩
      · exact Or.inl before
      · exact Or.inr (Or.inl allowed)
      · exact Or.inr (Or.inr ⟨now, (second.moments.drop _).subset since, shadows⟩)
    · exact Or.inr (Or.inl allowed)
    · have shorter : r.moments.length ≤ r'.moments.length := first.moments.length_le
      exact Or.inr (Or.inr ⟨now, (List.drop_subset_drop_left _ shorter) later, shadows⟩)

/-- Only what is allowed to the scopes of the first stage counts. -/
theorem of_old (grows : r.Grows free' r') (old : ∀ q ∈ free', q.1 < r.heap.size → q ∈ free) :
    r.Grows free r' where
  place := grows.place
  heap := grows.heap
  output := grows.output
  moments := grows.moments
  gained s inside n mem := (grows.gained s inside n mem).imp_right
    (Or.imp_left fun allowed => old (s, n) allowed inside)

theorem withHeap (heap : r.heap.Extends Set.univ h)
    (gained : ∀ s < r.heap.size, ∀ n ∈ (h.bindings s).names,
      n ∈ (r.heap.bindings s).names ∨ (s, n) ∈ free) : r.Grows free (r.withHeap h) where
  place := rfl
  heap := heap
  output := List.prefix_rfl
  moments := List.prefix_rfl
  gained s inside n mem := (gained s inside n mem).imp_right Or.inl

theorem child (s : ScopeId) (b : Bindings Value) : r.Grows free (r.withHeap (r.heap.child s b).2) :=
  withHeap (.child _ _ _ _) fun t inside n mem => by
    rw [Heap.bindings_child_of_lt s b inside] at mem
    exact Or.inl mem

theorem root : r.Grows free (r.withHeap (r.heap.root .empty).2) :=
  withHeap (.root _ _ _) fun t inside n mem => by
    rw [Heap.bindings_root_of_lt .empty inside] at mem
    exact Or.inl mem

theorem put {s : ScopeId} {n : String} (v : Value)
    (allowed : n ∈ (r.heap.bindings s).names ∨ (s, n) ∈ free) :
    r.Grows free (r.withHeap (r.heap.put s n v)) :=
  withHeap ((Heap.Extends.put ..).of_old fun _ _ _ => Set.mem_univ _) fun t inside k mem => by
    by_cases here : s = t
    · subst here
      rcases (Heap.mem_names_put inside n v s k).mp mem with ⟨_, rfl⟩ | before
      · exact allowed
      · exact Or.inl before
    · rw [Heap.bindings_put_of_ne here] at mem
      exact Or.inl mem

theorem noted (act : Act) : r.Grows free (r.noted act) where
  place := rfl
  heap := .refl _ _
  output := List.prefix_rfl
  moments := List.prefix_append _ _
  gained _ _ _ mem := Or.inl mem

/-- The assignment of a property: it is noted, and then the object is given the member. -/
theorem assigned {objectName : Option String} {m : ScopeId} {n : String} {u : Value} (v : Value)
    (found : Value.lookup r.heap m n = some u) :
    r.Grows free ((r.noted (.assigns (.object objectName m) n)).withHeap (r.heap.put m n v)) where
  place := rfl
  heap := (Heap.Extends.put ..).of_old fun _ _ _ => Set.mem_univ _
  output := List.prefix_rfl
  moments := List.prefix_append _ _
  gained s inside k mem := by
    by_cases own : k ∈ (r.heap.bindings s).names
    · exact Or.inl own
    · -- The object has not got the name, so the lookup has found it in a prototype.
      have member : (s, k) = (m, n) := by
        by_cases here : m = s
        · subst here
          rcases (Heap.mem_names_put inside n v m k).mp mem with ⟨_, rfl⟩ | before
          · rfl
          · exact absurd before own
        · have same : k ∈ ((r.heap.put m n v).bindings s).names := mem
          rw [Heap.bindings_put_of_ne here] at same
          exact absurd same own
      obtain ⟨rfl, rfl⟩ := Prod.mk.inj member
      refine Or.inr (Or.inr ⟨⟨r.place, r.heap, .assigns (.object objectName s) k⟩, ?_, ?_⟩)
      · show _ ∈ (r.moments ++ [_]).drop r.moments.length
        rw [List.drop_left]
        exact List.mem_singleton_self _
      · exact ⟨objectName, u, rfl, own, found⟩

/-- A step that was taken elsewhere, when the run is back. -/
theorem back (grows : (r.moved p).Grows free r') : r.Grows free (r'.moved r.place) where
  place := rfl
  heap := grows.heap
  output := grows.output
  moments := grows.moments
  gained := grows.gained

end Grows

end Stage

/-! ## Disciplines -/

/-- What is to hold of the heap, of values and of places, given what has happened so far. -/
structure Discipline where
  heap : Heap Value → List Moment → Prop
  value : Heap Value → List Moment → Value → Prop
  place : Heap Value → List Moment → Place → Prop

namespace Discipline

/-- What can happen in a place while nothing is bound: values are in accordance with the discipline,
a loop is about to bind elements of a sequence, a `DEF` is refused because the active scope binds
its name, and the members of an object have got a new scope. -/
def Permits (D : Discipline) (h : Heap Value) (log : List Moment) (p : Place) : Act → Prop
  | .evaluates _ | .executes _ => True
  | .yields v | .assigns v _ => D.value h log v
  | .binds _ v => ∃ elements, v ∈ elements ∧ D.value h log (.iterable elements)
  | .calls f arguments => D.value h log (.function f) ∧ ∀ v ∈ arguments, D.value h log v
  | .makes f => f.captured = p.scope ∧ f.isMethod = false ∧
      f.definition.name ∈ (h.bindings p.scope).names
  | .builds m _ => ∃ h₀, h = (h₀.root .empty).2 ∧ m = h₀.size ∧ D.heap h₀ log

/-- The operations of a run keep the discipline. -/
structure Kept (D : Discipline) : Prop where
  /-- Values and places stay as they are while the heap and the record grow. -/
  grow_value : ∀ {h h' : Heap Value} {log log' : List Moment} {v : Value},
    h.Extends Set.univ h' → log <+: log' → D.value h log v → D.value h' log' v
  grow_place : ∀ {h h' : Heap Value} {log log' : List Moment} {p : Place},
    h.Extends Set.univ h' → log <+: log' → D.place h log p → D.place h' log' p
  /-- Where values come from. -/
  plain : ∀ {h : Heap Value} {log : List Moment} {v : Value}, v.IsPlain → D.value h log v
  object : ∀ {h : Heap Value} {log : List Moment} {now : Moment} {m : ScopeId}
    {methods : List Method} (name : Option String), D.heap h log → now ∈ log →
      now.act = .builds m methods → D.value h log (.object name m)
  integers : ∀ (h : Heap Value) (log : List Moment) (a b : Int),
    D.value h log (.iterable (Builtin.integers a b))
  element : ∀ {h : Heap Value} {log : List Moment} {vs : List Value} {v : Value},
    D.value h log (.iterable vs) → v ∈ vs → D.value h log v
  bound : ∀ {h : Heap Value} {log : List Moment} {s : ScopeId} {n : String} {v : Value},
    D.heap h log → h.resolveLocal s n = some v → D.value h log v
  /-- Where closures come from: a `DEF` that is not refused binds one, and an object expression
  binds its methods, one after the other. -/
  made : ∀ {h : Heap Value} {log : List Moment} {p : Place} {f : Closure},
    D.heap h log → D.place h log p → f.captured = p.scope → f.isMethod = false →
      f.definition.name ∉ (h.bindings p.scope).names →
        D.heap (h.put p.scope f.definition.name (.function (.closure f)))
            (log ++ [⟨p, h, .makes f⟩]) ∧
          D.value (h.put p.scope f.definition.name (.function (.closure f)))
            (log ++ [⟨p, h, .makes f⟩]) (.function (.closure f))
  method : ∀ {h : Heap Value} {log : List Moment} {now : Moment} {m : ScopeId}
    {methods before after : List Method} {method : Method},
    D.heap h log → now ∈ log → now.act = .builds m methods → methods = before ++ method :: after →
      (∀ d ∈ before, d.definition.name ∈ (h.bindings m).names) →
        method.definition.name ∉ (h.bindings m).names →
          D.heap (h.put m method.definition.name
            (.function (.closure ⟨method.definition, m, true⟩))) log
  /-- How the heap changes otherwise. -/
  root : ∀ {h : Heap Value} {log : List Moment}, D.heap h log → D.heap (h.root .empty).2 log
  child : ∀ {h : Heap Value} {log : List Moment} (s : ScopeId) {b : Bindings Value},
    D.heap h log → (∀ n v, b.find? n = some v → D.value h log v) → D.heap (h.child s b).2 log
  put : ∀ {h : Heap Value} {log : List Moment} (s : ScopeId) (n : String) {v : Value},
    D.heap h log → D.value h log v → D.heap (h.put s n v) log
  note : ∀ {h : Heap Value} {log : List Moment} {p : Place} {act : Act},
    D.heap h log → D.place h log p → D.Permits h log p act → D.heap h (log ++ [⟨p, h, act⟩])
  /-- Where code runs: in the active scope, in a new one inside it, and in the two that a call makes
  inside the one that the callee has captured. -/
  inner : ∀ {h : Heap Value} {log : List Moment} {p : Place} (b : Bindings Value),
    D.heap h log → D.place h log p → D.place (h.child p.scope b).2 log { p with scope := h.size }
  call : ∀ {h : Heap Value} {log : List Moment} {p : Place} {f : Closure} {arguments : List Value}
    (b c : Bindings Value), D.heap h log → ⟨p, h, .calls (.closure f) arguments⟩ ∈ log →
      D.value h log (.function (.closure f)) →
        D.place ((h.child f.captured b).2.child h.size c).2 log
        ⟨(h.child f.captured b).2.size, some ⟨f, h.size⟩⟩

variable {D : Discipline} {free free' : Set (ScopeId × String)} {r r' r'' : Stage} {s : ScopeId}
  {v : Value}

/-- The value is in accordance with the discipline. -/
def Knows (D : Discipline) (v : Value) (r : Stage) : Prop := D.value r.heap r.moments v

/-- All these values are in accordance with the discipline. -/
def KnowsAll (D : Discipline) (vs : List Value) (r : Stage) : Prop := ∀ v ∈ vs, D.Knows v r

/-- The value that a statement has come to is in accordance with the discipline. -/
def KnowsFlow (D : Discipline) (flow : Flow) (r : Stage) : Prop := D.Knows flow.carried r

/-- A step can be taken from `r` on, in the scope `s`. -/
structure Ready (D : Discipline) (s : ScopeId) (r : Stage) : Prop where
  scope : r.place.scope = s
  heap : D.heap r.heap r.moments
  place : D.place r.heap r.moments r.place

/-- A step has led from `r` to `r'`. -/
structure Passes (D : Discipline) (free : Set (ScopeId × String)) (r r' : Stage) : Prop where
  grows : r.Grows free r'
  heap : D.heap r'.heap r'.moments

namespace Passes

theorem refl (heap : D.heap r.heap r.moments) : D.Passes free r r := ⟨.refl _ _, heap⟩

theorem trans (first : D.Passes free r r') (second : D.Passes free r' r'') : D.Passes free r r'' :=
  ⟨first.grows.trans second.grows, second.heap⟩

theorem ready (passes : D.Passes free r r') (kept : D.Kept) (ready : D.Ready s r) :
    D.Ready s r' where
  scope := by rw [passes.grows.place, ready.scope]
  heap := passes.heap
  place := by
    rw [passes.grows.place]
    exact kept.grow_place passes.grows.heap passes.grows.moments ready.place

theorem knows (passes : D.Passes free r r') (kept : D.Kept) (known : D.Knows v r) : D.Knows v r' :=
  kept.grow_value passes.grows.heap passes.grows.moments known

end Passes

namespace Kept

variable {h : Heap Value} {log : List Moment} {m : ScopeId} {n : String}

theorem resolve (kept : D.Kept) (heap : D.heap h log) (found : h.resolve s n = some v) :
    D.value h log v := by
  obtain ⟨t, _, bound⟩ := Heap.exists_resolveLocal_of_resolve found
  exact kept.bound heap bound

theorem lookup (kept : D.Kept) (heap : D.heap h log) (found : Value.lookup h m n = some v) :
    D.value h log v := by
  obtain ⟨t, bound⟩ := Value.exists_resolveLocal_of_lookup found
  exact kept.bound heap bound

end Kept

/-! ## Steps -/

/-- From `r` on, the staged step `x` does what the step `y` of the evaluator does. Wherever it ends,
it has led there in accordance with the discipline, and if it comes to a result, then to one as `Q`
says. -/
def Runs (D : Discipline) {α : Type} (free : Set (ScopeId × String)) (x : Staged α) (y : Run α)
    (r : Stage) (Q : α → Stage → Prop) : Prop :=
  match x r with
  | .ok a r' => y r.world = .ok a r'.world ∧ D.Passes free r r' ∧ Q a r'
  | .error halt r' => y r.world = .error halt r'.world ∧ D.Passes free r r'

namespace Runs

variable {α β : Type} {x : Staged α} {y : Run α} {f : α → Staged β} {g : α → Run β}
  {Q R : α → Stage → Prop} {S : β → Stage → Prop} {act : Act} {n : String}

theorem of_ok {a : α} (stage : x r = .ok a r') (result : y r.world = .ok a r'.world)
    (passes : D.Passes free r r') (post : Q a r') : D.Runs free x y r Q := by
  unfold Runs
  rw [stage]
  exact ⟨result, passes, post⟩

theorem of_error {halt : Halt} (stage : x r = .error halt r')
    (result : y r.world = .error halt r'.world) (passes : D.Passes free r r') :
    D.Runs free x y r Q := by
  unfold Runs
  rw [stage]
  exact ⟨result, passes⟩

theorem cases (runs : D.Runs free x y r Q) :
    (∃ a r', x r = .ok a r' ∧ y r.world = .ok a r'.world ∧ D.Passes free r r' ∧ Q a r') ∨
      ∃ halt r', x r = .error halt r' ∧ y r.world = .error halt r'.world ∧ D.Passes free r r' := by
  unfold Runs at runs
  cases staged : x r with
  | ok a r' =>
    rw [staged] at runs
    exact Or.inl ⟨a, r', rfl, runs⟩
  | error halt r' =>
    rw [staged] at runs
    exact Or.inr ⟨halt, r', rfl, runs⟩

theorem of_old (runs : D.Runs free' x y r Q) (old : ∀ q ∈ free', q.1 < r.heap.size → q ∈ free) :
    D.Runs free x y r Q := by
  rcases runs.cases with ⟨a, r', staged, result, passes, post⟩ | ⟨halt, r', staged, result, passes⟩
  · exact .of_ok staged result ⟨passes.grows.of_old old, passes.heap⟩ post
  · exact .of_error staged result ⟨passes.grows.of_old old, passes.heap⟩

/-- Scopes that are made on the way may get any names. -/
theorem fresh (runs : D.Runs {q | r.heap.size ≤ q.1} x y r Q) : D.Runs free x y r Q :=
  runs.of_old fun _ new old => absurd old (Nat.not_lt.mpr new)

/-- A step that goes on from a stage to which it has come. -/
theorem after {z : Staged α} {u : Run α} (passes : D.Passes free r r') (stage : x r = z r')
    (world : y r.world = u r'.world) (runs : D.Runs free z u r' Q) : D.Runs free x y r Q := by
  unfold Runs at runs ⊢
  rw [stage, world]
  split at runs
  · exact ⟨runs.1, passes.trans runs.2.1, runs.2.2⟩
  · exact ⟨runs.1, passes.trans runs.2⟩

theorem bind (first : D.Runs free x y r Q)
    (second : ∀ a r', D.Passes free r r' → Q a r' → D.Runs free (f a) (g a) r' S) :
    D.Runs free (x >>= f) (y >>= g) r S := by
  rcases first.cases with
    ⟨a, r₁, staged, result, passes, post⟩ | ⟨halt, r₁, staged, result, passes⟩
  · refine .after passes ?_ ?_ (second a r₁ passes post)
    · simp only [Bind.bind, EStateM.bind, staged]
    · simp only [Bind.bind, EStateM.bind, result]
  · have stage : (x >>= f) r = .error halt r₁ := by
      simp only [Bind.bind, EStateM.bind, staged]
    have comes : (y >>= g) r.world = .error halt r₁.world := by
      simp only [Bind.bind, EStateM.bind, result]
    exact .of_error stage comes passes

theorem pure {a : α} (ready : D.Ready s r) (post : Q a r) :
    D.Runs free (Pure.pure a) (Pure.pure a) r Q := ⟨rfl, .refl ready.heap, post⟩

theorem tooDeep (ready : D.Ready s r) : D.Runs free (throw .tooDeep) (throw .tooDeep) r Q :=
  ⟨rfl, .refl ready.heap⟩

theorem fail {cause : EvalError} (ready : D.Ready s r) :
    D.Runs free (Staged.lift (Run.fail cause)) (Run.fail cause) r Q := ⟨rfl, .refl ready.heap⟩

theorem failAt {node : NodeRef} {cause : EvalError} (ready : D.Ready s r) :
    D.Runs free (Staged.lift (Run.failAt node cause)) (Run.failAt node cause) r Q :=
  ⟨rfl, .refl ready.heap⟩

theorem located {node : NodeRef} (runs : D.Runs free x y r Q) :
    D.Runs free (Staged.located node x) (Run.located node y) r Q := by
  rcases runs.cases with ⟨a, r₁, staged, result, passes, post⟩ | ⟨halt, r₁, staged, result, passes⟩
  · have stage : Staged.located node x r = .ok a r₁ := by rw [Staged.located, staged]
    have comes : Run.located node y r.world = .ok a r₁.world := by rw [Run.located, result]
    exact .of_ok stage comes passes post
  · cases halt with
    | fault fault =>
      have stage : Staged.located node x r = .error (.fault (fault.located node)) r₁ := by
        rw [Staged.located, staged]
      have comes : Run.located node y r.world = .error (.fault (fault.located node)) r₁.world := by
        rw [Run.located, result]
      exact .of_error stage comes passes
    | tooDeep =>
      have stage : Staged.located node x r = .error .tooDeep r₁ := by
        rw [Staged.located, staged]
      have comes : Run.located node y r.world = .error .tooDeep r₁.world := by
        rw [Run.located, result]
      exact .of_error stage comes passes

/-! ### Steps in a place -/

/-- A step in the active scope. -/
theorem here {step : ScopeId → Run α} (ready : D.Ready s r)
    (runs : D.Runs free (Staged.lift (step s)) y r Q) : D.Runs free (Staged.here step) y r Q := by
  cases ready.scope
  exact runs

theorem here_bind {step : ScopeId → Run α} {z : Run β} (ready : D.Ready s r)
    (runs : D.Runs free (Staged.lift (step s) >>= f) z r S) :
    D.Runs free (Staged.here step >>= f) z r S := by
  cases ready.scope
  exact runs

/-- A step in another place, from which the run comes back. -/
theorem within {p : Place} (runs : D.Runs free x y (r.moved p) Q)
    (post : ∀ a r', Q a r' → R a (r'.moved r.place)) :
    D.Runs free (Staged.within p x) y r R := by
  rcases runs.cases with ⟨a, r₁, staged, result, passes, known⟩ | ⟨halt, r₁, staged, result, passes⟩
  · have back : Staged.within p x r = .ok a (r₁.moved r.place) := by
      unfold Staged.within
      rw [show x { r with place := p } = .ok a r₁ from staged]
      rfl
    exact .of_ok back result ⟨passes.grows.back, passes.heap⟩ (post a r₁ known)
  · have back : Staged.within p x r = .error halt (r₁.moved r.place) := by
      unfold Staged.within
      rw [show x { r with place := p } = .error halt r₁ from staged]
      rfl
    exact .of_error back result ⟨passes.grows.back, passes.heap⟩

theorem note_bind {f : Unit → Staged β} {z : Run β} (kept : D.Kept) (ready : D.Ready s r)
    (permits : D.Permits r.heap r.moments r.place act)
    (next : D.Passes free r (r.noted act) → D.Ready s (r.noted act) →
      D.Runs free (f ()) z (r.noted act) S) : D.Runs free (Staged.note act >>= f) z r S := by
  have passes : D.Passes free r (r.noted act) :=
    ⟨.noted act, kept.note ready.heap ready.place permits⟩
  exact .after passes rfl rfl (next passes (passes.ready kept ready))

/-- A step that is told of, up to the value that it comes to. -/
theorem told {value : α → Value} (kept : D.Kept) (ready : D.Ready s r)
    (permits : D.Permits r.heap r.moments r.place act)
    (runs : D.Ready s (r.noted act) →
      D.Runs free x y (r.noted act) fun a r' => D.Knows (value a) r') :
    D.Runs free (Staged.told act value x) y r fun a r' => D.Knows (value a) r' := by
  unfold Staged.told
  refine .note_bind kept ready permits fun _ ready => ?_
  rw [← bind_pure y]
  refine .bind (runs ready) fun a r₁ passes known => ?_
  exact .note_bind kept (passes.ready kept ready) known fun noted ready =>
    .pure ready (noted.knows kept known)

/-! ### Steps that leave the heap alone -/

theorem pure_bind {a : α} {z : Run β} (next : D.Runs free (f a) z r S) :
    D.Runs free (Staged.lift (Pure.pure a) >>= f) z r S := next

theorem read_bind {question : Heap Value → α} (next : D.Runs free (f (question r.heap))
    (g (question r.heap)) r S) :
    D.Runs free (Staged.lift (Run.read question) >>= f) (Run.read question >>= g) r S := next

theorem membersOf_bind {node : NodeRef} {name : Option String} {m : ScopeId}
    {f : ScopeId → Staged β} {g : ScopeId → Run β} (next : D.Runs free (f m) (g m) r S) :
    D.Runs free (Staged.lift (Run.membersOf node (.object name m)) >>= f)
      (Run.membersOf node (.object name m) >>= g) r S := next

/-- A step that at most writes lines. -/
theorem still (silent : y.Still) (ready : D.Ready s r)
    (post : ∀ a w, y r.world = .ok a w → w.heap = r.heap → Q a { r with world := w }) :
    D.Runs free (Staged.lift y) y r Q := by
  have passes : ∀ {w : World}, r.world.Wrote w → D.Passes free r { r with world := w } := by
    intro w wrote
    have same : w.heap = r.heap := wrote.heap
    refine ⟨⟨rfl, ?_, wrote.output, List.prefix_rfl, fun t _ n mem => Or.inl ?_⟩, ?_⟩
    · show r.heap.Extends Set.univ w.heap
      rw [same]
      exact .refl _ _
    · change n ∈ (w.heap.bindings t).names at mem
      rwa [same] at mem
    · show D.heap w.heap r.moments
      rw [same]
      exact ready.heap
  cases result : y r.world with
  | ok a w =>
    have wrote := silent.of_ok result
    have stage : Staged.lift y r = .ok a { r with world := w } := by
      rw [Staged.lift, Staged.here, result]
    exact .of_ok stage result (passes wrote) (post a w result wrote.heap)
  | error halt w =>
    have stage : Staged.lift y r = .error halt { r with world := w } := by
      rw [Staged.lift, Staged.here, result]
    exact .of_error stage result (passes (silent.of_error result))

theorem still_bind (silent : y.Still) (kept : D.Kept) (ready : D.Ready s r)
    (next : ∀ a r', D.Passes free r r' → D.Ready s r' → D.Runs free (f a) (g a) r' S) :
    D.Runs free (Staged.lift y >>= f) (y >>= g) r S :=
  .bind (Q := fun _ _ => True) (.still silent ready fun _ _ _ _ => trivial)
    fun a r' passes _ => next a r' passes (passes.ready kept ready)

/-- An operator makes plain data. -/
theorem combine {node : NodeRef} {op : BinaryOp} {l v : Value} (kept : D.Kept)
    (ready : D.Ready s r) :
    D.Runs free (Staged.lift (Run.located node (Run.rule fun h => op.combine h l v)))
      (Run.located node (Run.rule fun h => op.combine h l v)) r D.Knows := by
  exact .still (.located (.rule _)) ready fun u w ok _ =>
    kept.plain (BinaryOp.combine_plain (Run.Ends.eq_ok_of_located_rule ok))

/-- A builtin gives back an argument, `Nil` or a range of integers. -/
theorem builtin (f : Builtin) {arguments : List Value} (kept : D.Kept)
    (ready : D.Ready s r) (known : D.KnowsAll arguments r) :
    D.Runs free (Staged.lift (f.apply arguments)) (f.apply arguments) r
      D.Knows := by
  refine .still (.builtin f arguments) ready fun v w ok same => ?_
  have ends := (f.ends_apply arguments (E := fun _ => True) (w := r.world)
    (fun _ _ => trivial) fun _ _ _ => trivial).of_ok ok
  show D.value w.heap r.moments v
  rw [same]
  rcases ends.2 with given | rfl | ⟨a, b, rfl⟩
  · exact known v given
  · exact kept.plain trivial
  · exact kept.integers _ _ a b

/-! ### Steps that change the heap -/

theorem child_bind {t : ScopeId} {b : Bindings Value} {f : ScopeId → Staged β}
    {g : ScopeId → Run β} (kept : D.Kept) (ready : D.Ready s r)
    (known : ∀ n v, b.find? n = some v → D.Knows v r)
    (next : D.Passes free r (r.withHeap (r.heap.child t b).2) →
      D.Runs free (f r.heap.size) (g r.heap.size) (r.withHeap (r.heap.child t b).2) S) :
    D.Runs free (Staged.lift (Run.child t b) >>= f) (Run.child t b >>= g) r S := by
  have passes : D.Passes free r (r.withHeap (r.heap.child t b).2) :=
    ⟨.child t b, kept.child t ready.heap known⟩
  have new : (r.heap.child t b).1 = r.heap.size := Heap.child_fst _ _ _
  refine .after passes ?_ ?_ (next passes)
  · rw [← new]
    rfl
  · rw [← new]
    rfl

theorem root_bind {f : ScopeId → Staged β} {g : ScopeId → Run β} (kept : D.Kept)
    (ready : D.Ready s r)
    (next : D.Passes free r (r.withHeap (r.heap.root .empty).2) →
      D.Runs free (f r.heap.size) (g r.heap.size) (r.withHeap (r.heap.root .empty).2) S) :
    D.Runs free (Staged.lift Run.root >>= f) (Run.root >>= g) r S := by
  have passes : D.Passes free r (r.withHeap (r.heap.root .empty).2) :=
    ⟨.root, kept.root ready.heap⟩
  exact .after passes rfl rfl (next passes)

/-- A binding of a name that is bound already or may be. -/
theorem put {t : ScopeId} {Q : Unit → Stage → Prop} (kept : D.Kept) (ready : D.Ready s r)
    (known : D.Knows v r) (allowed : n ∈ (r.heap.bindings t).names ∨ (t, n) ∈ free)
    (post : ∀ r', D.Passes free r r' → Q () r') :
    D.Runs free (Staged.lift (Run.put t n v)) (Run.put t n v) r Q := by
  have passes : D.Passes free r (r.withHeap (r.heap.put t n v)) :=
    ⟨.put v allowed, kept.put t n ready.heap known⟩
  exact ⟨rfl, passes, post _ passes⟩

/-- A definition, which is refused if the scope binds the name. -/
theorem define_of_unbound {t : ScopeId} {cause : EvalError} {Q : Unit → Stage → Prop}
    (ready : D.Ready s r) (allowed : (t, n) ∈ free)
    (heap : n ∉ (r.heap.bindings t).names → D.heap (r.heap.put t n v) r.moments)
    (post : D.Passes free r (r.withHeap (r.heap.put t n v)) →
      Q () (r.withHeap (r.heap.put t n v))) :
    D.Runs free (Staged.lift (Run.define t n v cause)) (Run.define t n v cause) r Q := by
  have result := Run.define_eq t n v cause r.world
  by_cases bound : r.world.heap.binds t n = true
  · rw [if_pos bound] at result
    refine .of_error ?_ result (.refl ready.heap)
    rw [Staged.lift, Staged.here, result]
  · rw [if_neg bound] at result
    have passes : D.Passes free r (r.withHeap (r.heap.put t n v)) :=
      ⟨.put v (Or.inr allowed), heap (mt Heap.binds_iff.mpr bound)⟩
    refine .of_ok ?_ result passes (post passes)
    rw [Staged.lift, Staged.here, result]
    rfl

theorem define {t : ScopeId} {cause : EvalError} {Q : Unit → Stage → Prop} (kept : D.Kept)
    (ready : D.Ready s r) (known : D.Knows v r) (allowed : (t, n) ∈ free)
    (post : ∀ r', D.Passes free r r' → Q () r') :
    D.Runs free (Staged.lift (Run.define t n v cause)) (Run.define t n v cause) r Q :=
  .define_of_unbound ready allowed (fun _ => kept.put t n ready.heap known) (post _)

/-- A `DEF`: it is noted, and then refused or carried out. -/
theorem makes_bind {closure : Closure} {cause : EvalError} {x : Staged β} {y : Run β}
    (kept : D.Kept) (ready : D.Ready s r) (captured : closure.captured = s)
    (function : closure.isMethod = false) (allowed : (s, closure.definition.name) ∈ free)
    (next : ∀ r', D.Passes free r r' → D.Knows (.function (.closure closure)) r' →
      D.Runs free x y r' S) :
    D.Runs free (do
        Staged.note (.makes closure)
        Staged.here fun s =>
          Run.define s closure.definition.name (.function (.closure closure)) cause
        x)
      (do
        Run.define s closure.definition.name (.function (.closure closure)) cause
        y) r S := by
  cases ready.scope
  have result := Run.define_eq r.place.scope closure.definition.name
    (.function (.closure closure)) cause r.world
  by_cases bound : r.world.heap.binds r.place.scope closure.definition.name = true
  · rw [if_pos bound] at result
    have passes : D.Passes free r (r.noted (.makes closure)) :=
      ⟨.noted _, kept.note ready.heap ready.place ⟨captured, function, Heap.binds_iff.mp bound⟩⟩
    refine .of_error (?_ : _ = EStateM.Result.error (.fault ⟨cause, none⟩) _) ?_ passes
    · simp only [Bind.bind, EStateM.bind, Staged.note, Staged.here, result]
      rfl
    · simp only [Bind.bind, EStateM.bind, result]
      rfl
  · rw [if_neg bound] at result
    obtain ⟨heap, known⟩ := kept.made ready.heap ready.place captured function
      (mt Heap.binds_iff.mpr bound)
    have noted : r.Grows free (r.noted (.makes closure)) := .noted _
    have passes : D.Passes free r ((r.noted (.makes closure)).withHeap
        (r.heap.put r.place.scope closure.definition.name (.function (.closure closure)))) :=
      ⟨noted.trans (.put _ (Or.inr allowed)), heap⟩
    refine .after passes ?_ ?_ (next _ passes known)
    · simp only [Bind.bind, EStateM.bind, Staged.note, Staged.here, result]
      rfl
    · simp only [Bind.bind, EStateM.bind, result]
      rfl

/-- The assignment of a property. -/
theorem assigns {m : ScopeId} {objectName : Option String} {found : Value}
    {Q : Unit → Stage → Prop} (kept : D.Kept) (ready : D.Ready s r)
    (receiver : D.Knows (.object objectName m) r) (known : D.Knows v r)
    (member : Value.lookup r.heap m n = some found)
    (post : ∀ r', D.Passes free r r' → Q () r') :
    D.Runs free (do
        Staged.note (.assigns (.object objectName m) n)
        Staged.lift (Run.put m n v))
      (Run.put m n v) r Q := by
  have noted : D.Passes free r (r.noted (.assigns (.object objectName m) n)) :=
    ⟨.noted _, kept.note ready.heap ready.place receiver⟩
  have passes : D.Passes free r
      ((r.noted (.assigns (.object objectName m) n)).withHeap (r.heap.put m n v)) :=
    ⟨.assigned v member, kept.put m n noted.heap (noted.knows kept known)⟩
  exact ⟨rfl, passes, post _ passes⟩

end Runs

/-! ## The walk -/

/-- Calls of closures that are staged as they are made, whatever place they are made in. -/
def Calls (D : Discipline) (staged : Staged.Caller) (call : Run.Caller) : Prop :=
  ∀ f arguments free r s, D.Ready s r →
    ⟨r.place, r.heap, .calls (.closure f) arguments⟩ ∈ r.moments →
      D.Knows (.function (.closure f)) r → D.KnowsAll arguments r →
        D.Runs free (staged f arguments) (call f arguments) r D.Knows

variable {staged : Staged.Caller} {call : Run.Caller}

theorem invoke_runs (kept : D.Kept) (calls : D.Calls staged call) (f : Callable)
    {arguments : List Value} (ready : D.Ready s r) (function : D.Knows (.function f) r)
    (known : D.KnowsAll arguments r) :
    D.Runs free (Staged.invoke staged f arguments) (Run.invoke call f arguments) r D.Knows := by
  refine .note_bind kept ready ⟨function, known⟩ fun noted ready => ?_
  have known₁ : D.KnowsAll arguments (r.noted (.calls f arguments)) := fun v mem =>
    noted.knows kept (known v mem)
  cases f with
  | builtin f => exact .builtin f kept ready known₁
  | closure f =>
    exact calls f arguments free _ s ready (List.mem_append_right _ List.mem_cons_self)
      (noted.knows kept function) known₁

/-- The methods of an object are defined in their order; those that have been are bound. -/
theorem defineMethods_runs (kept : D.Kept) {m : ScopeId} {methods : List Method} {now : Moment}
    (built : now.act = .builds m methods) (allowed : ∀ n, (m, n) ∈ free) :
    ∀ {rest before : List Method}, methods = before ++ rest →
      ∀ {r : Stage}, D.Ready s r → now ∈ r.moments → m < r.heap.size →
        (∀ d ∈ before, d.definition.name ∈ (r.heap.bindings m).names) →
          D.Runs free (Staged.lift (Run.defineMethods m rest)) (Run.defineMethods m rest) r
            fun _ _ => True
  | [], _, _, r, ready, _, _, _ => .pure ready trivial
  | ⟨node, d⟩ :: rest, before, split, r, ready, mem, inside, bound => by
    let f : Value := .function (.closure ⟨d, m, true⟩)
    have binds (n : String) : n ∈ ((r.heap.put m d.name f).bindings m).names ↔
        n = d.name ∨ n ∈ (r.heap.bindings m).names := by
      rw [Heap.mem_names_put inside, eq_self_iff_true, true_and]
    rw [Run.defineMethods, Staged.lift_bind, Staged.lift_located]
    refine .bind (.located (.define_of_unbound
      (Q := fun _ r₁ => r₁ = r.withHeap (r.heap.put m d.name f)) ready (allowed _)
      (fun unbound => kept.method ready.heap mem built split bound unbound) fun _ => rfl)) ?_
    rintro _ _ passes rfl
    have next : methods = (before ++ [⟨node, d⟩]) ++ rest := by simp [split]
    refine defineMethods_runs kept built allowed next (passes.ready kept ready)
      (passes.grows.moments.subset mem)
      (Nat.lt_of_lt_of_le inside passes.grows.heap.size_le) ?_
    intro method listed
    rw [List.mem_append, List.mem_singleton] at listed
    exact (binds _).mpr (listed.symm.imp (fun same => by rw [same]) (bound method))

/-! ### One lemma for each kind of expression with several parts -/

section Kinds

variable (staged : Staged.Caller) (call : Run.Caller) (s : ScopeId)

/-- Wherever the expression is evaluated in `s`, the staged evaluation keeps the discipline. -/
def ExprRuns (D : Discipline) (e : Expr) : Prop :=
  ∀ {free : Set (ScopeId × String)} {r : Stage}, D.Ready s r →
    D.Runs free (Staged.evaluate staged e) (Run.evaluate call s e) r D.Knows

def ExprsRun (D : Discipline) (es : List Expr) : Prop :=
  ∀ {free : Set (ScopeId × String)} {r : Stage}, D.Ready s r →
    D.Runs free (Staged.evaluateAll staged es) (Run.evaluateAll call s es) r D.KnowsAll

variable {staged call s}

theorem binary_runs (kept : D.Kept) {op : BinaryOp} {left right : Expr}
    (leftRuns : D.ExprRuns staged call s left) (rightRuns : D.ExprRuns staged call s right)
    (ready : D.Ready s r) :
    D.Runs free (Staged.evaluateKind staged (.binary op left right))
      (Run.evaluateKind call s (.binary op left right)) r D.Knows := by
  rw [Staged.evaluateKind, Run.evaluateKind]
  refine .bind (leftRuns ready) fun l r₁ passes _ => ?_
  have ready₁ := passes.ready kept ready
  cases op.leftFault? l with
  | some cause => exact .failAt ready₁
  | none =>
    cases decided : op.decided? l with
    | some v => exact .pure ready₁ (kept.plain (BinaryOp.decided?_plain decided))
    | none =>
      refine .bind (rightRuns ready₁) fun v r₂ passes _ => ?_
      exact .combine kept (passes.ready kept ready₁)

/-- The callee is known before the arguments are evaluated, and so it is afterwards. -/
theorem call_runs (kept : D.Kept) (calls : D.Calls staged call) {name : String}
    {arguments : List Expr} (argumentsRun : D.ExprsRun staged call s arguments)
    (ready : D.Ready s r) :
    D.Runs free (Staged.evaluateKind staged (.call name arguments))
      (Run.evaluateKind call s (.call name arguments)) r D.Knows := by
  rw [Staged.evaluateKind, Run.evaluateKind]
  refine .here_bind ready (.read_bind ?_)
  cases found : r.heap.resolve s name with
  | none => exact .fail ready
  | some v =>
    cases v with
    | function f =>
      refine .bind (argumentsRun ready) fun vs r₁ passes known => ?_
      have callee : D.Knows (.function f) r := kept.resolve ready.heap found
      exact invoke_runs kept calls f (passes.ready kept ready) (passes.knows kept callee) known
    | _ => exact .fail ready

theorem invokeMember_runs (kept : D.Kept) (calls : D.Calls staged call) {receiver : Expr}
    {name : String} {arguments : List Expr} (receiverRuns : D.ExprRuns staged call s receiver)
    (argumentsRun : D.ExprsRun staged call s arguments) (ready : D.Ready s r) :
    D.Runs free (Staged.evaluateKind staged (.invoke receiver name arguments))
      (Run.evaluateKind call s (.invoke receiver name arguments)) r D.Knows := by
  rw [Staged.evaluateKind, Run.evaluateKind]
  refine .bind (receiverRuns ready) fun object r₁ passes₁ object₁ => ?_
  refine .still_bind (.membersOf _ _) kept (passes₁.ready kept ready)
    fun m r₂ passes₂ ready₂ => ?_
  refine .read_bind ?_
  cases found : Value.lookup r₂.heap m name with
  | none => exact .fail ready₂
  | some v =>
    cases v with
    | function f =>
      refine .bind (argumentsRun ready₂) fun vs r₃ passes₃ known => ?_
      have callee : D.Knows (.function f) r₂ := kept.lookup ready₂.heap found
      refine invoke_runs kept calls f (passes₃.ready kept ready₂) (passes₃.knows kept callee) ?_
      intro v mem
      rcases List.mem_cons.mp mem with rfl | mem
      · exact passes₃.knows kept (passes₂.knows kept object₁)
      · exact known v mem
    | _ => exact .fail ready₂

/-- The members get a new scope, so the names that it is given are nobody else's concern. -/
theorem object_runs (kept : D.Kept) {name : Option String} {fields : List Field}
    {methods : List Method}
    (fieldsRun : ∀ (m : ScopeId) {free : Set (ScopeId × String)} {r : Stage}, D.Ready s r →
      (∀ n, (m, n) ∈ free) →
        D.Runs free (Staged.defineFields staged m fields) (Run.defineFields call s m fields) r
          fun _ _ => True)
    (ready : D.Ready s r) :
    D.Runs free (Staged.evaluateKind staged (.object name fields methods))
      (Run.evaluateKind call s (.object name fields methods)) r D.Knows := by
  rw [Staged.evaluateKind, Run.evaluateKind]
  refine .fresh (.root_bind kept ready fun made => ?_)
  have permits : D.Permits (r.heap.root .empty).2 r.moments r.place
      (.builds r.heap.size methods) := ⟨r.heap, rfl, rfl, ready.heap⟩
  refine .note_bind kept (made.ready kept ready) permits fun noted ready₁ => ?_
  refine .bind (fieldsRun r.heap.size ready₁ fun _ => Nat.le_refl _) fun _ r₂ passes _ => ?_
  have ready₂ := passes.ready kept ready₁
  have mem : ⟨r.place, (r.heap.root .empty).2, .builds r.heap.size methods⟩ ∈ r₂.moments :=
    passes.grows.moments.subset (List.mem_append_right _ List.mem_cons_self)
  have inside : r.heap.size < r₂.heap.size :=
    Nat.lt_of_lt_of_le (Heap.lt_size_root r.heap .empty) passes.grows.heap.size_le
  refine .bind (defineMethods_runs kept rfl (fun _ => Nat.le_refl _) (List.nil_append _).symm
    ready₂ mem inside (by simp)) fun _ r₃ passes _ => ?_
  have ready₃ := passes.ready kept ready₂
  exact .pure ready₃ (kept.object name ready₃.heap (passes.grows.moments.subset mem) rfl)

end Kinds

mutual

theorem evaluate_runs (kept : D.Kept) (calls : D.Calls staged call) : ∀ (e : Expr)
    {free : Set (ScopeId × String)} {s : ScopeId} {r : Stage}, D.Ready s r →
      D.Runs free (Staged.evaluate staged e) (Run.evaluate call s e) r D.Knows
  | ⟨node, kind⟩, free, s, r, ready => by
    rw [Staged.evaluate, Run.evaluate]
    exact .told kept ready trivial fun ready => .located (evaluateKind_runs kept calls kind ready)

theorem evaluateKind_runs (kept : D.Kept) (calls : D.Calls staged call) : ∀ (e : ExprKind)
    {free : Set (ScopeId × String)} {s : ScopeId} {r : Stage}, D.Ready s r →
      D.Runs free (Staged.evaluateKind staged e) (Run.evaluateKind call s e) r D.Knows
  | .literal value, free, s, r, ready => by
    rw [Staged.evaluateKind, Run.evaluateKind]
    exact .pure ready (kept.plain (by cases value <;> trivial))
  | .group inner, free, s, r, ready => by
    rw [Staged.evaluateKind, Run.evaluateKind]
    exact evaluate_runs kept calls inner ready
  | .binary _ left right, free, s, r, ready =>
    binary_runs kept (evaluate_runs kept calls left) (evaluate_runs kept calls right) ready
  | .variable name, free, s, r, ready => by
    rw [Staged.evaluateKind, Run.evaluateKind]
    refine .here_bind ready (.read_bind ?_)
    cases found : r.heap.resolve s name with
    | none => exact .fail ready
    | some v => exact .pure ready (kept.resolve ready.heap found)
  | .property receiver name, free, s, r, ready => by
    rw [Staged.evaluateKind, Run.evaluateKind]
    refine .bind (evaluate_runs kept calls receiver ready) fun object r₁ passes _ => ?_
    refine .still_bind (.membersOf _ _) kept (passes.ready kept ready) fun m r₂ _ ready₂ => ?_
    refine .read_bind ?_
    cases found : Value.lookup r₂.heap m name with
    | none => exact .fail ready₂
    | some v => exact .pure ready₂ (kept.lookup ready₂.heap found)
  | .call _ arguments, free, s, r, ready =>
    call_runs kept calls (evaluateAll_runs kept calls arguments) ready
  | .invoke receiver _ arguments, free, s, r, ready =>
    invokeMember_runs kept calls (evaluate_runs kept calls receiver)
      (evaluateAll_runs kept calls arguments) ready
  | .object _ fields _, free, s, r, ready =>
    object_runs kept (fun m => defineFields_runs kept calls m fields) ready

theorem evaluateAll_runs (kept : D.Kept) (calls : D.Calls staged call) : ∀ (es : List Expr)
    {free : Set (ScopeId × String)} {s : ScopeId} {r : Stage}, D.Ready s r →
      D.Runs free (Staged.evaluateAll staged es) (Run.evaluateAll call s es) r D.KnowsAll
  | [], free, s, r, ready => by
    rw [Staged.evaluateAll, Run.evaluateAll]
    refine .pure ready fun v mem => ?_
    cases mem
  | e :: rest, free, s, r, ready => by
    rw [Staged.evaluateAll, Run.evaluateAll]
    refine .bind (evaluate_runs kept calls e ready) fun v r₁ passes known => ?_
    have ready₁ := passes.ready kept ready
    refine .bind (evaluateAll_runs kept calls rest ready₁) fun vs r₂ passes₂ all => ?_
    refine .pure (passes₂.ready kept ready₁) fun u mem => ?_
    rcases List.mem_cons.mp mem with rfl | mem
    · exact passes₂.knows kept known
    · exact all u mem

theorem evaluateOption_runs (kept : D.Kept) (calls : D.Calls staged call) : ∀ (e : Option Expr)
    {free : Set (ScopeId × String)} {s : ScopeId} {r : Stage}, D.Ready s r →
      D.Runs free (Staged.evaluateOption staged e) (Run.evaluateOption call s e) r D.Knows
  | none, free, s, r, ready => by
    rw [Staged.evaluateOption, Run.evaluateOption]
    exact .pure ready (kept.plain trivial)
  | some e, free, s, r, ready => by
    rw [Staged.evaluateOption, Run.evaluateOption]
    exact evaluate_runs kept calls e ready

theorem defineFields_runs (kept : D.Kept) (calls : D.Calls staged call) (m : ScopeId) :
    ∀ (fields : List Field) {free : Set (ScopeId × String)} {s : ScopeId} {r : Stage},
      D.Ready s r → (∀ n, (m, n) ∈ free) →
        D.Runs free (Staged.defineFields staged m fields) (Run.defineFields call s m fields) r
          fun _ _ => True
  | [], free, s, r, ready, _ => by
    rw [Staged.defineFields, Run.defineFields]
    exact .pure ready trivial
  | ⟨node, ⟨name, ty, value⟩⟩ :: rest, free, s, r, ready, allowed => by
    rw [Staged.defineFields, Run.defineFields]
    refine .bind (evaluateOption_runs kept calls value ready) fun v r₁ passes known => ?_
    have ready₁ := passes.ready kept ready
    rw [Staged.lift_located]
    refine .bind (.located (.define (Q := fun _ _ => True) kept ready₁ known (allowed _)
      fun _ _ => trivial)) fun _ r₂ passes _ => ?_
    exact defineFields_runs kept calls m rest (passes.ready kept ready₁) allowed

end

theorem assign_runs (kept : D.Kept) (calls : D.Calls staged call) (target : Expr)
    (ready : D.Ready s r) (known : D.Knows v r) :
    D.Runs free (Staged.assign staged target v) (Run.assign call s target v) r fun _ _ => True := by
  obtain ⟨node, kind⟩ := target
  unfold Staged.assign Run.assign
  cases kind with
  | «variable» name =>
    refine .here_bind ready (.read_bind ?_)
    cases found : r.heap.owner? s name with
    | none => exact .failAt ready
    | some owner =>
      have bound : name ∈ (r.heap.bindings owner).names :=
        Heap.binds_iff.mp (Heap.binds_of_owner? found)
      exact .put kept ready known (Or.inl bound) fun _ _ => trivial
  | property receiver name =>
    refine .bind (evaluate_runs kept calls receiver ready) fun object r₁ passes object₁ => ?_
    have ready₁ := passes.ready kept ready
    cases object with
    | object objectName m =>
      refine .membersOf_bind (.read_bind ?_)
      cases found : Value.lookup r₁.heap m name with
      | none => exact .failAt ready₁
      | some _ =>
        exact .assigns kept ready₁ object₁ (passes.knows kept known) found fun _ _ => trivial
    | _ => exact .failAt ready₁
  | _ => exact .failAt ready

/-- A step that is taken in a new scope inside the active one. -/
theorem enterChild_runs {b : Bindings Value} {x : Staged Flow} {y : ScopeId → Run Flow}
    (kept : D.Kept) (ready : D.Ready s r) (known : ∀ n v, b.find? n = some v → D.Knows v r)
    (body : ∀ {free : Set (ScopeId × String)} {s : ScopeId} {r : Stage}, D.Ready s r →
      (∀ n, (s, n) ∈ free) → D.Runs free x (y s) r D.KnowsFlow) :
    D.Runs free (Staged.enterChild b x) (Run.child s b >>= y) r D.KnowsFlow := by
  refine .fresh (.here_bind ready (.child_bind kept ready known fun made => ?_))
  refine .within (body ⟨rfl, made.heap, ?_⟩ fun _ => Nat.le_refl _) fun _ _ known => known
  have inner := kept.inner b ready.heap ready.place
  rw [ready.scope] at inner
  exact inner

theorem overElements_runs {name : String} {x : Staged Flow} {y : ScopeId → Run Flow}
    (kept : D.Kept)
    (body : ∀ {free : Set (ScopeId × String)} {s : ScopeId} {r : Stage}, D.Ready s r →
      (∀ n, (s, n) ∈ free) → D.Runs free x (y s) r D.KnowsFlow) :
    ∀ {all : List Value} (elements : List Value) {free : Set (ScopeId × String)} {r : Stage},
      D.Ready s r → D.Knows (.iterable all) r → elements ⊆ all →
      D.Runs free (Staged.overElements name x elements) (Run.overElements s name y elements) r
        D.KnowsFlow
  | _, [], free, r, ready, _, _ => .pure ready (kept.plain (v := .nil) trivial)
  | all, v :: rest, free, r, ready, known, sub => by
    -- The elements that are left are among those of the sequence, of which all is known.
    have mem : v ∈ all := sub List.mem_cons_self
    rw [Staged.overElements, Run.overElements_cons]
    refine .note_bind kept ready ⟨all, mem, known⟩ fun noted ready₁ => ?_
    have known₁ := noted.knows kept known
    refine .bind (enterChild_runs kept ready₁ ?_ fun ready _ =>
      enterChild_runs kept ready (by simp) body) fun flow r₂ passes result => ?_
    · intro n u found
      rw [(Bindings.eq_of_find?_single found).2]
      exact kept.element known₁ mem
    · have ready₂ := passes.ready kept ready₁
      cases flow with
      | returned v => exact .pure ready₂ result
      | value _ =>
        exact overElements_runs kept body rest ready₂ (passes.knows kept known₁)
          fun u mem => sub (List.mem_cons_of_mem _ mem)

mutual

theorem execute_runs (kept : D.Kept) (calls : D.Calls staged call) : ∀ (x : Stmt)
    {free : Set (ScopeId × String)} {s : ScopeId} {r : Stage}, D.Ready s r →
      (∀ n, x.declares? = some n → (s, n) ∈ free) →
        D.Runs free (Staged.execute staged x) (Run.execute call s x) r D.KnowsFlow
  | ⟨node, kind⟩, free, s, r, ready, allowed => by
    rw [Staged.execute, Run.execute]
    exact .told kept ready trivial fun ready =>
      .located (executeKind_runs kept calls kind ready allowed)

theorem executeKind_runs (kept : D.Kept) (calls : D.Calls staged call) : ∀ (x : StmtKind)
    {free : Set (ScopeId × String)} {s : ScopeId} {r : Stage}, D.Ready s r →
      (∀ n, x.declares? = some n → (s, n) ∈ free) →
        D.Runs free (Staged.executeKind staged x) (Run.executeKind call s x) r D.KnowsFlow
  | .letVar ⟨name, ty, value⟩, free, s, r, ready, allowed => by
    rw [Staged.executeKind, Run.executeKind]
    refine .bind (evaluateOption_runs kept calls value ready) fun v r₁ passes known => ?_
    have ready₁ := passes.ready kept ready
    refine .bind (.here ready₁ (.define (Q := fun _ r₂ => D.Passes free r₁ r₂) kept ready₁ known
      (allowed name rfl) fun _ passes => passes)) fun _ r₂ _ defined => ?_
    exact .pure (defined.ready kept ready₁) (defined.knows kept known)
  | .defFun d, free, s, r, ready, allowed => by
    rw [Staged.executeKind, Run.executeKind]
    refine .still_bind (.checkParameters false d) kept ready fun _ r₁ _ ready₁ => ?_
    refine .here_bind ready₁ (.pure_bind ?_)
    exact .makes_bind kept ready₁ rfl rfl (allowed d.name rfl) fun _ passes known =>
      .pure (passes.ready kept ready₁) known
  | .ifElse condition thenBody elseBody, free, s, r, ready, _ => by
    rw [Staged.executeKind, Run.executeKind]
    refine .bind (evaluate_runs kept calls condition ready) fun v r₁ passes _ => ?_
    have ready₁ := passes.ready kept ready
    cases v with
    | boolean b =>
      cases b with
      | true =>
        exact enterChild_runs kept ready₁ (by simp) fun ready allowed =>
          block_runs kept calls thenBody ready allowed (kept.plain trivial)
      | false =>
        exact enterChild_runs kept ready₁ (by simp) fun ready allowed =>
          block_runs kept calls elseBody ready allowed (kept.plain trivial)
    | _ => exact .failAt ready₁
  | .forEach name iterable body, free, s, r, ready, _ => by
    rw [Staged.executeKind, Run.executeKind]
    refine .bind (evaluate_runs kept calls iterable ready) fun v r₁ passes known => ?_
    have ready₁ := passes.ready kept ready
    cases v with
    | iterable elements =>
      exact overElements_runs kept (fun ready allowed =>
        block_runs kept calls body ready allowed (kept.plain (v := .nil) trivial)) elements ready₁
        known (List.Subset.refl _)
    | _ => exact .failAt ready₁
  | .returns value, free, s, r, ready, _ => by
    rw [Staged.executeKind, Run.executeKind]
    exact .bind (evaluateOption_runs kept calls value ready) fun v r₁ passes known =>
      .pure (passes.ready kept ready) known
  | .expr e, free, s, r, ready, _ => by
    rw [Staged.executeKind, Run.executeKind]
    exact .bind (evaluate_runs kept calls e ready) fun v r₁ passes known =>
      .pure (passes.ready kept ready) known
  | .assign target value, free, s, r, ready, _ => by
    rw [Staged.executeKind, Run.executeKind]
    refine .bind (evaluate_runs kept calls value ready) fun v r₁ passes known => ?_
    have ready₁ := passes.ready kept ready
    refine .bind (assign_runs kept calls target ready₁ known) fun _ r₂ passes _ => ?_
    exact .pure (passes.ready kept ready₁) (passes.knows kept known)

theorem block_runs (kept : D.Kept) (calls : D.Calls staged call) : ∀ (xs : List Stmt)
    {free : Set (ScopeId × String)} {s : ScopeId} {r : Stage} {last : Value}, D.Ready s r →
      (∀ n, (s, n) ∈ free) → D.Knows last r →
        D.Runs free (Staged.block staged last xs) (Run.block call s last xs) r D.KnowsFlow
  | [], free, s, r, last, ready, _, known => by
    rw [Staged.block, Run.block]
    exact .pure ready known
  | x :: rest, free, s, r, last, ready, allowed, _ => by
    rw [Staged.block, Run.block]
    refine .bind (execute_runs kept calls x ready fun n _ => allowed n)
      fun flow r₁ passes known => ?_
    have ready₁ := passes.ready kept ready
    cases flow with
    | value v => exact block_runs kept calls rest ready₁ allowed known
    | returned v => exact .pure ready₁ known

end

/-! ## Calls, scripts and sessions -/

theorem enter_runs (kept : D.Kept) (calls : D.Calls staged call) :
    D.Calls (Staged.enter staged) (Run.enter call) := by
  intro f arguments free r s ready called function known
  rw [Run.enter_eq, Staged.enter, Run.runBody]
  -- The call makes both of its scopes, so it may give them any names.
  refine .fresh (.bind (Q := fun _ r₁ => r₁.heap = r.heap)
    (.still (.checkCall f arguments) ready fun _ _ _ same => same) fun _ r₁ checked same => ?_)
  have ready₁ := checked.ready kept ready
  have bound : ∀ n v, (Bindings.ofList (f.boundNames.zip arguments)).find? n = some v →
      D.Knows v r₁ := fun n v found =>
    checked.knows kept (known v (List.of_mem_zip (Bindings.mem_of_find?_ofList found)).2)
  have called₁ : ⟨r.place, r₁.heap, .calls (.closure f) arguments⟩ ∈ r₁.moments := by
    rw [same]
    exact checked.grows.moments.subset called
  have place := kept.call (.ofList (f.boundNames.zip arguments)) .empty ready₁.heap called₁
    (checked.knows kept function)
  have young : ∀ q ∈ {q : ScopeId × String | r₁.heap.size ≤ q.1}, q.1 < r₁.heap.size →
      r.heap.size ≤ q.1 := fun q new _ => Nat.le_trans checked.grows.heap.size_le new
  refine .of_old ?_ young
  refine .child_bind kept ready₁ bound fun made => ?_
  have ready₂ := made.ready kept ready₁
  refine .child_bind kept ready₂ (by simp) fun made => ?_
  have allowed := Nat.le_of_lt (Heap.lt_size_child r₁.heap f.captured
    (.ofList (f.boundNames.zip arguments)))
  refine .bind (Q := D.KnowsFlow) (.within (block_runs kept calls f.definition.body
    ⟨rfl, made.heap, place⟩ (fun _ => allowed) (kept.plain (v := .nil) trivial))
    fun _ _ known => known) fun flow r₃ passes result => ?_
  have ready₃ := passes.ready kept (made.ready kept ready₂)
  cases flow with
  | value v => exact .pure ready₃ (kept.plain (v := .nil) trivial)
  | returned v => exact .pure ready₃ result

theorem callClosure_runs (kept : D.Kept) : ∀ depth,
    D.Calls (Staged.callClosure depth) (Run.callClosure depth)
  | 0 => fun _ _ _ _ _ ready _ _ _ => .tooDeep ready
  | depth + 1 => enter_runs kept (callClosure_runs kept depth)

theorem statements_runs (kept : D.Kept) (calls : D.Calls staged call) :
    ∀ (xs : List Stmt) {s : ScopeId} {r : Stage} {last : Value}, D.Ready s r → D.Knows last r →
      D.Runs {q | q.1 = s} (Staged.statements staged last xs) (Run.statements call s last xs) r
        D.Knows
  | [], _, _, _, ready, known => .pure ready known
  | x :: rest, s, r, last, ready, _ => by
    rw [Staged.statements, Run.statements]
    refine .bind (execute_runs kept calls x ready fun _ _ => rfl) fun flow r₁ passes known => ?_
    have ready₁ := passes.ready kept ready
    cases flow with
    | value v => exact statements_runs kept calls rest ready₁ known
    | returned v => exact .failAt ready₁

theorem script_runs (kept : D.Kept) (depth : Nat) (p : Script) (ready : D.Ready s r) :
    D.Runs {q | q.1 = s} (Staged.script depth p) (Run.script depth s p) r D.Knows :=
  statements_runs kept (callClosure_runs kept depth) p.statements ready
    (kept.plain (v := .nil) trivial)

namespace Runs

variable {α : Type} {x : Staged α} {y : Run α} {Q : α → Stage → Prop}

theorem forget (runs : D.Runs free x y r Q) : Staged.forget (x r) = y r.world := by
  rcases runs.cases with ⟨a, r', staged, result, _⟩ | ⟨halt, r', staged, result, _⟩
  · rw [staged, result]
    rfl
  · rw [staged, result]
    rfl

theorem passes (runs : D.Runs free x y r Q) : D.Passes free r (Staged.after x r) := by
  unfold Staged.after
  rcases runs.cases with ⟨a, r', staged, _, passes, _⟩ | ⟨halt, r', staged, _, passes⟩
  · rw [staged]
    exact passes
  · rw [staged]
    exact passes

end Runs

/-- A session keeps the discipline from script to script, also after a script that has failed. -/
theorem session_ready (kept : D.Kept) (depth : Nat) : ∀ (scripts : List Script) {r : Stage},
    D.Ready s r → D.Ready s (Staged.session depth scripts r)
  | [], _, ready => ready
  | p :: rest, r, ready => by
    have start : D.Ready s { r with world := ⟨r.heap, #[]⟩ } :=
      ⟨ready.scope, ready.heap, ready.place⟩
    exact session_ready kept depth rest
      ((script_runs kept depth p start).passes.ready kept start)

end Discipline

end GradualScript
