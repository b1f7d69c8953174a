/-
# GradualScript.Proofs.Run.Captures -- what captured names stand for

A closure shares the scope that it captures with the block around its definition, and the block goes
on. From the moment of the definition until a later call the captured scope and the scopes around it
lose no name, and none of them moves; what they bind more has been declared there by a `LET` or a
`DEF` in between (`Heap.Since`). Every name that could be seen at the definition can therefore be
seen at the call. It stands for the same variable unless it has been declared again in a scope
nearer to the closure than that variable, and then it stands for one that was declared there.

Members are bound from elsewhere too, by assigning a property. But the scope of an object has no
parent (`Value.Rooted`), so it is the last that a lookup comes to, and its members hide nothing.
-/

import GradualScript.Proofs.Run.Trace
import GradualScript.Proofs.Run.Names

namespace GradualScript

/-! ## Declarations -/

/-- What a declaration binds, and where. -/
def Event.binding? : Event → Option (ScopeId × String)
  | .declared s name => some (s, name)
  | .defined f _ => some (f.captured, f.definition.name)
  | _ => none

/-- One of the events has bound `n` in `s`: a variable, or the name of a function. -/
def Declares (events : List Event) (s : ScopeId) (n : String) : Prop :=
  ∃ e ∈ events, e.binding? = some (s, n)

instance (events : List Event) (s : ScopeId) (n : String) : Decidable (Declares events s n) :=
  inferInstanceAs (Decidable (∃ e ∈ events, e.binding? = some (s, n)))

variable {events : List Event} {s t : ScopeId} {n : String} {e : Event}

theorem not_declares_nil : ¬Declares [] s n := by
  rintro ⟨_, mem, _⟩
  cases mem

theorem declares_snoc : Declares (events ++ [e]) s n ↔
    Declares events s n ∨ e.binding? = some (s, n) := by
  simp only [Declares, List.mem_append, List.mem_singleton, or_and_right, exists_or,
    exists_eq_left]

/-! ## Growth between two moments -/

/-- The heap `h` has come out of `h₀` by these events. Old scopes keep what they bind. A scope that
has a parent binds more only if it was declared. -/
structure Heap.Since (h₀ : Heap Value) (events : List Event) (h : Heap Value) : Prop where
  grows : h₀.Extends Set.univ h
  bound : ∀ s < h₀.size, ∀ n, Declares events s n → n ∈ (h.bindings s).names
  added : ∀ s < h₀.size, ∀ n ∈ (h.bindings s).names,
    n ∈ (h₀.bindings s).names ∨ h₀.parent? s = none ∨ Declares events s n

namespace Heap

variable {h h₀ h₁ : Heap Value} {v : Value}

/-- The owner of a name is the nearest scope that binds it. -/
theorem le_of_owner? {u : ScopeId} (mem : u ∈ h.chain s) (binds : h.binds u n = true)
    (found : h.owner? s n = some t) : u ≤ t := by
  revert mem
  refine owner?_induct found ?_ ?_
  · exact fun _ => le_of_mem_chain
  · intro s p link unbound _ ih mem
    rw [chain_of_parent link, List.mem_cons] at mem
    rcases mem with rfl | mem
    · exact absurd (binds_iff.mp binds) unbound
    · exact ih mem

/-- Nothing is seen from a scope that does not exist. -/
theorem lt_size_of_owner? (found : h.owner? s n = some t) : s < h.size := by
  by_contra out
  rw [owner?_eq, if_neg fun binds => out (lt_size_of_binds binds),
    parent?_eq_none_of_ge (Nat.le_of_not_lt out)] at found
  cases found

theorem mem_chain_of_owner? : h.owner? s n = some t → t ∈ h.chain s := List.mem_of_find?_eq_some

namespace Since

theorem refl (h : Heap Value) : Since h [] h where
  grows := .refl _ h
  bound _ _ _ declared := absurd declared not_declares_nil
  added _ _ _ mem := Or.inl mem

/-- A step that is not a declaration adds to scopes without a parent alone. -/
theorem extend (since : Since h₀ events h) (quiet : h.Extends {s | h.parent? s = none} h₁) :
    Since h₀ events h₁ where
  grows := since.grows.trans (quiet.of_old fun _ _ _ => Set.mem_univ _)
  bound s old n declared := quiet.mem_names (since.bound s old n declared)
  added s old n mem := by
    by_cases free : h.parent? s = none
    · rw [since.grows.parent s old] at free
      exact Or.inr (Or.inl free)
    · rw [quiet.same s (Nat.lt_of_lt_of_le old since.grows.size_le) free] at mem
      exact since.added s old n mem

theorem declare (since : Since h₀ events h) (binding : e.binding? = some (s, n)) :
    Since h₀ (events ++ [e]) (h.put s n v) where
  grows := since.grows.trans ((Extends.put h s n v).of_old fun _ _ _ => Set.mem_univ _)
  bound t old m declared := by
    have inside := Nat.lt_of_lt_of_le old since.grows.size_le
    rcases declares_snoc.mp declared with before | now
    · exact (Extends.put h s n v).mem_names (since.bound t old m before)
    · rw [binding] at now
      obtain ⟨rfl, rfl⟩ := Prod.mk.inj (Option.some.inj now)
      exact (mem_names_put inside n v s n).mpr (Or.inl ⟨rfl, rfl⟩)
  added t old m mem := by
    rw [declares_snoc]
    by_cases here : s = t
    · subst here
      have inside := Nat.lt_of_lt_of_le old since.grows.size_le
      rcases (mem_names_put inside n v s m).mp mem with ⟨_, rfl⟩ | before
      · exact Or.inr (Or.inr (Or.inr binding))
      · exact (since.added s old m before).imp_right (Or.imp_right Or.inl)
    · rw [bindings_put_of_ne here] at mem
      exact (since.added t old m mem).imp_right (Or.imp_right Or.inl)

theorem silent (since : Since h₀ events h) (silent : e.binding? = none) :
    Since h₀ (events ++ [e]) h where
  grows := since.grows
  bound s old n declared := by
    rcases declares_snoc.mp declared with before | now
    · exact since.bound s old n before
    · rw [silent] at now
      cases now
  added s old n mem := by
    rw [declares_snoc]
    exact (since.added s old n mem).imp_right (Or.imp_right Or.inl)

/-- A name is found again, in the scope where it was found before or in a nearer one in which it has
been declared since. -/
theorem owner? (since : Since h₀ events h) (found : h₀.owner? s n = some t) :
    ∃ t', h.owner? s n = some t' ∧ (t' = t ∨ t < t' ∧ Declares events t' n) := by
  -- The chain is the same in both heaps, and the first scope of it that binds the name counts.
  refine owner?_induct found ?_ ?_
  · intro bound
    refine ⟨t, ?_, Or.inl rfl⟩
    rw [owner?_eq, if_pos (binds_iff.mpr (since.grows.mem_names (binds_iff.mp bound)))]
  · intro s p link unbound further ih
    have old : s < h₀.size := lt_size_of_parent? link
    rw [owner?_eq, since.grows.parent s old, link]
    by_cases bound : h.binds s n = true
    · rw [if_pos bound]
      refine ⟨s, rfl, Or.inr ⟨?_, ?_⟩⟩
      · exact Nat.lt_of_le_of_lt (le_of_mem_chain (mem_chain_of_owner? further)) (parent?_lt link)
      · rcases since.added s old n (binds_iff.mp bound) with before | root | declared
        · exact absurd before unbound
        · rw [root] at link
          cases link
        · exact declared
    · rw [if_neg bound]
      exact ih

/-- A name goes on to stand for the same variable as long as no nearer scope declares it. -/
theorem owner?_eq_iff (since : Since h₀ events h) (found : h₀.owner? s n = some t) :
    h.owner? s n = some t ↔ ∀ u ∈ h₀.chain s, t < u → ¬Declares events u n := by
  have old : s < h₀.size := lt_size_of_owner? found
  have chain := since.grows.chain old
  constructor
  · intro same u mem nearer declared
    have inside : u < h₀.size := Nat.lt_of_le_of_lt (le_of_mem_chain mem) old
    have binds := binds_iff.mpr (since.bound u inside n declared)
    exact absurd (le_of_owner? (chain ▸ mem) binds same) (Nat.not_le.mpr nearer)
  · intro none
    obtain ⟨t', found', rfl | ⟨nearer, declared⟩⟩ := since.owner? found
    · exact found'
    · exact absurd declared (none t' (chain ▸ mem_chain_of_owner? found') nearer)

end Since

end Heap

/-! ## Objects -/

/-- An object is a scope without a parent, and a sequence holds integers. -/
def Value.Rooted (h : Heap Value) : Value → Prop
  | .object _ members => members < h.size ∧ h.parent? members = none
  | .iterable elements => ∀ v ∈ elements, ∃ n, v = .integer n
  | _ => True

/-- All values in the heap are rooted. -/
def Heap.Rooted (h : Heap Value) : Prop := ∀ s n v, h.resolveLocal s n = some v → v.Rooted h

variable {h h' h₀ : Heap Value} {v : Value} {m : ScopeId} {free : Set ScopeId}

namespace Value.Rooted

theorem mono (rooted : v.Rooted h) (grows : h.Extends free h') : v.Rooted h' := by
  cases v with
  | object name members =>
    exact ⟨Nat.lt_of_lt_of_le rooted.1 grows.size_le,
      (grows.parent members rooted.1).trans rooted.2⟩
  | iterable elements => exact rooted
  | _ => trivial

theorem of_plain (plain : v.IsPlain) : v.Rooted h := by
  cases v <;> trivial

theorem ofLiteral (l : Literal) : (Value.ofLiteral l).Rooted h := of_plain (isPlain_ofLiteral l)

theorem integers (a b : Int) : (Value.iterable (Builtin.integers a b)).Rooted h := by
  intro v mem
  obtain ⟨k, _, rfl⟩ := List.mem_map.mp mem
  exact ⟨_, rfl⟩

end Value.Rooted

namespace Heap.Rooted

theorem resolve (rooted : h.Rooted) (found : h.resolve s n = some v) : v.Rooted h := by
  obtain ⟨t, _, bound⟩ := exists_resolveLocal_of_resolve found
  exact rooted t n v bound

theorem lookup (rooted : h.Rooted) (found : Value.lookup h m n = some v) : v.Rooted h := by
  obtain ⟨t, bound⟩ := Value.exists_resolveLocal_of_lookup found
  exact rooted t n v bound

theorem holds (rooted : h.Rooted) : h.Holds fun v => v.Rooted h := rooted

theorem child (rooted : h.Rooted) (s : ScopeId) {b : Bindings Value}
    (bound : ∀ n v, b.find? n = some v → v.Rooted h) : (h.child s b).2.Rooted :=
  (rooted.holds.child s bound).imp fun _ known => known.mono (.child ∅ h s b)

theorem root (rooted : h.Rooted) : (h.root .empty).2.Rooted :=
  rooted.holds.root.imp fun _ known => known.mono (.root ∅ h .empty)

theorem put (rooted : h.Rooted) (value : v.Rooted h) : (h.put s n v).Rooted :=
  (rooted.holds.put value).imp fun _ known => known.mono (.put h s n v)

end Heap.Rooted

/-! ## Chronicles -/

/-- The heap has come out of every definition, and so have the heaps of the calls, by the events in
between. -/
structure Heap.Chronicle (h : Heap Value) (events : List Event) : Prop where
  rooted : h.Rooted
  defined : ∀ before f h₀ after, events = before ++ .defined f h₀ :: after → h₀.Since after h
  called : ∀ before f h₀ between g arguments h₁ after,
    events = before ++ .defined f h₀ :: (between ++ .called g arguments h₁ :: after) →
      h₀.Since between h₁

namespace Heap.Chronicle

theorem start (rooted : h.Rooted) : h.Chronicle [] where
  rooted := rooted
  defined _ _ _ _ same := by simp at same
  called _ _ _ _ _ _ _ _ same := by simp at same

/-- A step that tells nothing adds to scopes without a parent alone. -/
theorem extend (chronicle : h.Chronicle events) (rooted : h'.Rooted)
    (quiet : h.Extends {s | h.parent? s = none} h') : h'.Chronicle events where
  rooted := rooted
  defined before f h₀ after same := (chronicle.defined before f h₀ after same).extend quiet
  called := chronicle.called

/-- An event that is no definition, if it is a call then of the present heap. -/
theorem tell (chronicle : h.Chronicle events) (rooted : h'.Rooted)
    (defined : ∀ f h₀, e = .defined f h₀ → h₀ = h')
    (called : ∀ g arguments h₁, e = .called g arguments h₁ → h₁ = h)
    (since : ∀ {h₀ : Heap Value} {after}, h₀.Since after h → h₀.Since (after ++ [e]) h') :
    h'.Chronicle (events ++ [e]) where
  rooted := rooted
  defined before f h₀ after same := by
    rcases snoc_eq_append_cons same with ⟨_, last, rfl⟩ | ⟨init, rfl, earlier⟩
    · rw [defined f h₀ last]
      exact .refl h'
    · exact since (chronicle.defined before f h₀ init earlier)
  called before f h₀ between g arguments h₁ after same := by
    rw [← List.cons_append, ← List.append_assoc] at same
    rcases snoc_eq_append_cons same with ⟨earlier, last, rfl⟩ | ⟨init, rfl, earlier⟩
    · rw [called g arguments h₁ last]
      exact chronicle.defined before f h₀ between earlier
    · rw [List.append_assoc, List.cons_append] at earlier
      exact chronicle.called before f h₀ between g arguments h₁ init earlier

theorem child (chronicle : h.Chronicle events) (s : ScopeId) {b : Bindings Value}
    (bound : ∀ n v, b.find? n = some v → v.Rooted h) : (h.child s b).2.Chronicle events :=
  chronicle.extend (chronicle.rooted.child s bound) (.child _ h s b)

theorem root (chronicle : h.Chronicle events) : (h.root .empty).2.Chronicle events :=
  chronicle.extend chronicle.rooted.root (.root _ h .empty)

/-- A name that is bound already gets another value. -/
theorem assign (chronicle : h.Chronicle events) (found : h.owner? s n = some t)
    (value : v.Rooted h) : (h.put t n v).Chronicle events :=
  chronicle.extend (chronicle.rooted.put value)
    (.put_bound _ (Heap.binds_iff.mp (Heap.binds_of_owner? found)) v)

/-- An object gets a member. -/
theorem member (chronicle : h.Chronicle events) (object : h.parent? m = none)
    (value : v.Rooted h) : (h.put m n v).Chronicle events := by
  refine chronicle.extend (chronicle.rooted.put value) ((Heap.Extends.put h m n v).of_old ?_)
  intro t same _
  rw [Set.mem_singleton_iff.mp same]
  exact object

/-- A declaration is told of with the heap that it leaves. -/
theorem declare (chronicle : h.Chronicle events) (binding : e.binding? = some (s, n))
    (defined : ∀ f h₀, e = .defined f h₀ → h₀ = h.put s n v) (value : v.Rooted h) :
    (h.put s n v).Chronicle (events ++ [e]) := by
  refine chronicle.tell (chronicle.rooted.put value) defined ?_ fun since => since.declare binding
  rintro g arguments h₁ rfl
  cases binding

theorem call (chronicle : h.Chronicle events) (f : Closure) (arguments : List Value) :
    h.Chronicle (events ++ [.called f arguments h]) := by
  refine chronicle.tell chronicle.rooted ?_ ?_ fun since => since.silent rfl
  · intro g h₀ same
    cases same
  · intro g vs h₁ same
    cases same
    rfl

theorem complete (chronicle : h.Chronicle events) (f : Closure) (flow : Flow) (result : Value) :
    h.Chronicle (events ++ [.completed f flow result]) := by
  refine chronicle.tell chronicle.rooted ?_ ?_ fun since => since.silent rfl
  · intro g h₀ same
    cases same
  · intro g vs h₁ same
    cases same

end Heap.Chronicle

/-! ## The walk -/

namespace Traced

variable {call : Caller}

/-- A step that found the heap `h` has yielded a rooted value. -/
def Yields (h : Heap Value) (v : Value) (h' : Heap Value) : Prop :=
  h.Extends Set.univ h' ∧ v.Rooted h'

def YieldsAll (h : Heap Value) (vs : List Value) (h' : Heap Value) : Prop :=
  h.Extends Set.univ h' ∧ ∀ v ∈ vs, v.Rooted h'

/-- A statement that found the heap `h` has ended with a rooted value. -/
def Ended (h : Heap Value) : Flow → Heap Value → Prop
  | .value v, h' | .returned v, h' => Yields h v h'

/-- Closures that are called with rooted values yield rooted values. -/
def Caller.Rooted (call : Caller) : Prop :=
  ∀ f arguments h, (∀ v ∈ arguments, v.Rooted h) →
    Keeps Heap.Chronicle (call f arguments) h (Yields h)

theorem Yields.after {h₁ : Heap Value} (grows : h.Extends Set.univ h₁) (yields : Yields h₁ v h') :
    Yields h v h' := ⟨grows.trans yields.1, yields.2⟩

theorem Yields.refl (rooted : v.Rooted h) : Yields h v h := ⟨.refl _ h, rooted⟩

theorem Ended.after {h₁ : Heap Value} {flow : Flow} (grows : h.Extends Set.univ h₁)
    (ended : Ended h₁ flow h') : Ended h flow h' := by
  cases flow with
  | value v => exact Yields.after grows ended
  | returned v => exact Yields.after grows ended

theorem builtin_rooted {f : Builtin} {arguments : List Value}
    (rooted : ∀ v ∈ arguments, v.Rooted h) :
    Keeps Heap.Chronicle (lift (f.apply arguments)) h (Yields h) := by
  refine .lift (.builtin f arguments) fun v output w ok => .refl ?_
  have ends := f.ends_apply (E := fun _ => True) (w := ⟨h, output⟩) arguments
    (fun _ _ => trivial) fun _ _ _ => trivial
  rcases (ends.of_ok ok).2 with mem | rfl | ⟨a, b, rfl⟩
  · exact rooted v mem
  · exact .of_plain trivial
  · exact .integers a b

theorem invoke_rooted (callee : Caller.Rooted call) (f : Callable) {arguments : List Value}
    (rooted : ∀ v ∈ arguments, v.Rooted h) :
    Keeps Heap.Chronicle (invoke call f arguments) h (Yields h) := by
  cases f with
  | builtin f => exact builtin_rooted rooted
  | closure f => exact callee f arguments h rooted

theorem defineMethods_rooted : ∀ (methods : List Method) {h : Heap Value},
    (m < h.size ∧ h.parent? m = none) →
      Keeps Heap.Chronicle (defineMethods m methods) h fun _ h' => h.Extends Set.univ h'
  | [], h, _ => .pure (.refl _ h)
  | ⟨node, d⟩ :: rest, h, object => by
    have grows : h.Extends Set.univ (h.put m d.name (.function (.closure ⟨d, m, true⟩))) :=
      (Heap.Extends.put ..).of_old fun _ _ _ => Set.mem_univ _
    rw [defineMethods]
    refine .bind (Q := fun _ h' => h' = h.put m d.name (.function (.closure ⟨d, m, true⟩)))
      (.located (.define (fun _ chronicle => chronicle.member object.2 trivial) rfl)) ?_
    rintro _ _ rfl
    refine (defineMethods_rooted rest ?_).mono fun _ _ more => grows.trans more
    rwa [Heap.size_put, Heap.parent?_put]

mutual

theorem evaluate_rooted (callee : Caller.Rooted call) (s : ScopeId) : ∀ (e : Expr) (h : Heap Value),
    Keeps Heap.Chronicle (evaluate call s e) h (Yields h)
  | ⟨node, kind⟩, h => by
    rw [evaluate]
    exact .located (evaluateKind_rooted callee s kind h)

theorem evaluateKind_rooted (callee : Caller.Rooted call) (s : ScopeId) :
    ∀ (e : ExprKind) (h : Heap Value),
      Keeps Heap.Chronicle (evaluateKind call s e) h (Yields h)
  | .literal value, h => by
    rw [evaluateKind]
    exact .pure (.refl (.ofLiteral value))
  | .group inner, h => by
    rw [evaluateKind]
    exact evaluate_rooted callee s inner h
  | .binary op left right, h => by
    rw [evaluateKind]
    refine .bind (evaluate_rooted callee s left h) fun l h₁ first => ?_
    cases op.leftFault? l with
    | some cause => exact .failAt
    | none =>
      cases decided : op.decided? l with
      | some v => exact .pure (.after first.1 (.refl (.of_plain (BinaryOp.decided?_plain decided))))
      | none =>
        refine .bind (evaluate_rooted callee s right h₁) fun r h₂ second => ?_
        -- Operators make plain data, which holds no closure.
        exact .lift (.located (.rule _)) fun v output w ok => ⟨first.1.trans second.1,
          .of_plain (BinaryOp.combine_plain (Run.Ends.eq_ok_of_located_rule ok))⟩
  | .variable name, h => by
    rw [evaluateKind]
    refine .of_invariant fun events chronicle => .read_bind ?_
    cases found : h.resolve s name with
    | none => exact .fail
    | some v => exact .pure (.refl (chronicle.rooted.resolve found))
  | .property receiver name, h => by
    rw [evaluateKind]
    refine .bind (evaluate_rooted callee s receiver h) fun object h₁ first => ?_
    refine .lift_bind (.membersOf _ _) fun members => .of_invariant fun events chronicle =>
      .read_bind ?_
    cases found : Value.lookup h₁ members name with
    | none => exact .fail
    | some v => exact .pure ⟨first.1, chronicle.rooted.lookup found⟩
  | .call name arguments, h => by
    rw [evaluateKind]
    refine .read_bind ?_
    cases h.resolve s name with
    | none => exact .fail
    | some v =>
      cases v with
      | function f =>
        refine .bind (evaluateAll_rooted callee s arguments h) fun vs h₁ all => ?_
        exact (invoke_rooted callee f all.2).mono fun _ _ => .after all.1
      | _ => exact .fail
  | .invoke receiver name arguments, h => by
    rw [evaluateKind]
    refine .bind (evaluate_rooted callee s receiver h) fun object h₁ first => ?_
    refine .lift_bind (.membersOf _ _) fun members => .read_bind ?_
    cases Value.lookup h₁ members name with
    | none => exact .fail
    | some v =>
      cases v with
      | function f =>
        refine .bind (evaluateAll_rooted callee s arguments h₁) fun vs h₂ all => ?_
        have rooted : ∀ v ∈ object :: vs, v.Rooted h₂ := by
          intro v mem
          rcases List.mem_cons.mp mem with rfl | mem
          · exact first.2.mono all.1
          · exact all.2 v mem
        exact (invoke_rooted callee f rooted).mono fun _ _ => .after (first.1.trans all.1)
      | _ => exact .fail
  | .object name fields methods, h => by
    rw [evaluateKind]
    refine .root_bind (fun _ chronicle => chronicle.root) ?_
    have made : h.Extends Set.univ (h.root .empty).2 := .root _ h .empty
    have object : h.size < (h.root .empty).2.size ∧ (h.root .empty).2.parent? h.size = none :=
      ⟨Heap.lt_size_root h .empty, Heap.parent?_root_self h .empty⟩
    refine .bind (defineFields_rooted callee s h.size fields _ object) fun _ h₁ first => ?_
    have object₁ : h.size < h₁.size ∧ h₁.parent? h.size = none :=
      Value.Rooted.mono (v := .object name h.size) object first
    refine .bind (defineMethods_rooted methods object₁) fun _ h₂ second => .pure ⟨?_, ?_⟩
    · exact made.trans (first.trans second)
    · exact Value.Rooted.mono (v := .object name h.size) object₁ second

theorem evaluateAll_rooted (callee : Caller.Rooted call) (s : ScopeId) :
    ∀ (es : List Expr) (h : Heap Value),
      Keeps Heap.Chronicle (evaluateAll call s es) h (YieldsAll h)
  | [], h => by
    rw [evaluateAll]
    refine .pure ⟨.refl _ h, fun v mem => ?_⟩
    cases mem
  | e :: rest, h => by
    rw [evaluateAll]
    refine .bind (evaluate_rooted callee s e h) fun v h₁ first => ?_
    refine .bind (evaluateAll_rooted callee s rest h₁) fun vs h₂ all => ?_
    refine .pure ⟨first.1.trans all.1, fun u mem => ?_⟩
    rcases List.mem_cons.mp mem with rfl | mem
    · exact first.2.mono all.1
    · exact all.2 u mem

theorem evaluateOption_rooted (callee : Caller.Rooted call) (s : ScopeId) :
    ∀ (e : Option Expr) (h : Heap Value),
      Keeps Heap.Chronicle (evaluateOption call s e) h (Yields h)
  | none, h => by
    rw [evaluateOption]
    exact .pure (.refl (.of_plain trivial))
  | some e, h => by
    rw [evaluateOption]
    exact evaluate_rooted callee s e h

theorem defineFields_rooted (callee : Caller.Rooted call) (s m : ScopeId) :
    ∀ (fields : List Field) (h : Heap Value), (m < h.size ∧ h.parent? m = none) →
      Keeps Heap.Chronicle (defineFields call s m fields) h fun _ h' => h.Extends Set.univ h'
  | [], h, _ => by
    rw [defineFields]
    exact .pure (.refl _ h)
  | ⟨node, ⟨name, ty, value⟩⟩ :: rest, h, object => by
    rw [defineFields]
    refine .bind (evaluateOption_rooted callee s value h) fun v h₁ first => ?_
    have object₁ : m < h₁.size ∧ h₁.parent? m = none :=
      Value.Rooted.mono (v := .object none m) object first.1
    have grows : h₁.Extends Set.univ (h₁.put m name v) :=
      (Heap.Extends.put ..).of_old fun _ _ _ => Set.mem_univ _
    refine .bind (Q := fun _ h' => h' = h₁.put m name v)
      (.located (.define (fun _ chronicle => chronicle.member object₁.2 first.2) rfl)) ?_
    rintro _ _ rfl
    refine (defineFields_rooted callee s m rest _ ?_).mono fun _ _ more =>
      first.1.trans (grows.trans more)
    rwa [Heap.size_put, Heap.parent?_put]

end

theorem assign_rooted (callee : Caller.Rooted call) (s : ScopeId) (target : Expr)
    (rooted : v.Rooted h) :
    Keeps Heap.Chronicle (assign call s target v) h fun _ h' => h.Extends Set.univ h' := by
  obtain ⟨node, kind⟩ := target
  unfold assign
  cases kind with
  | «variable» name =>
    refine .read_bind ?_
    cases found : h.owner? s name with
    | none => exact .failAt
    | some owner =>
      exact .put (fun _ chronicle => chronicle.assign found rooted)
        ((Heap.Extends.put ..).of_old fun _ _ _ => Set.mem_univ _)
  | property receiver name =>
    refine .bind (evaluate_rooted callee s receiver h) fun object h₁ first => ?_
    cases object with
    | object objectName m =>
      refine .membersOf_bind (.read_bind ?_)
      cases Value.lookup h₁ m name with
      | none => exact .failAt
      | some _ =>
        exact .put (fun _ chronicle => chronicle.member first.2.2 (rooted.mono first.1))
          (first.1.trans ((Heap.Extends.put ..).of_old fun _ _ _ => Set.mem_univ _))
    | _ => exact .failAt_bind
  | _ => exact .failAt

/-- A scope that binds rooted values is put inside `s`. -/
theorem child_bind_rooted {α : Type} {f : ScopeId → Traced α} {Q : α → Heap Value → Prop}
    {b : Bindings Value} (bound : ∀ n v, b.find? n = some v → v.Rooted h)
    (next : Keeps Heap.Chronicle (f h.size) (h.child s b).2 Q) :
    Keeps Heap.Chronicle (lift (Run.child s b) >>= f) h Q :=
  .child_bind (fun _ chronicle => chronicle.child s bound) next

theorem overElements_rooted {name : String} {body : ScopeId → Traced Flow}
    (bodyKeeps : ∀ inner h, Keeps Heap.Chronicle (body inner) h (Ended h)) :
    ∀ {elements : List Value} {h : Heap Value}, (∀ v ∈ elements, ∃ n, v = .integer n) →
      Keeps Heap.Chronicle (overElements s name body elements) h (Ended h) := by
  intro elements
  induction elements with
  | nil => exact fun _ => .pure (.refl (.of_plain trivial))
  | cons v rest ih =>
    intro h integers
    rw [overElements]
    refine child_bind_rooted ?_ (child_bind_rooted ?_ (.bind (bodyKeeps _ _) ?_))
    · intro m u found
      obtain ⟨rfl, rfl⟩ := Bindings.eq_of_find?_single found
      obtain ⟨n, rfl⟩ := integers _ List.mem_cons_self
      trivial
    · intro m u found
      simp at found
    · intro flow h₁ ended
      have made := (Heap.Extends.child Set.univ h s (.ofList [(name, v)])).trans
        (.child Set.univ _ h.size .empty)
      cases flow with
      | returned u => exact .pure (ended.after made)
      | value u =>
        exact (ih fun v mem => integers v (List.mem_cons_of_mem _ mem)).mono fun _ _ =>
          .after (ended.after made).1

mutual

theorem execute_rooted (callee : Caller.Rooted call) : ∀ (x : Stmt) (s : ScopeId) (h : Heap Value),
    Keeps Heap.Chronicle (execute call s x) h (Ended h)
  | ⟨node, kind⟩, s, h => by
    rw [execute]
    exact .located (executeKind_rooted callee kind s h)

theorem executeKind_rooted (callee : Caller.Rooted call) :
    ∀ (x : StmtKind) (s : ScopeId) (h : Heap Value),
      Keeps Heap.Chronicle (executeKind call s x) h (Ended h)
  | .letVar ⟨name, ty, value⟩, s, h => by
    rw [executeKind]
    refine .bind (evaluateOption_rooted callee s value h) fun v h₁ first => ?_
    refine .declare_bind (fun _ _ chronicle => chronicle.declare rfl ?_ first.2) fun _ => .pure ?_
    -- A variable is no capture: its value was made before.
    · intro f h₀ same
      cases same
    · have grows : h₁.Extends Set.univ (h₁.put s name v) :=
        (Heap.Extends.put ..).of_old fun _ _ _ => Set.mem_univ _
      exact ⟨first.1.trans grows, first.2.mono grows⟩
  | .defFun d, s, h => by
    rw [executeKind]
    refine .lift_bind (.checkParameters false d) fun _ => ?_
    refine .declare_bind (fun _ _ chronicle => chronicle.declare rfl ?_ trivial) fun _ => .pure ?_
    -- The function is bound in the scope that it captures.
    · intro f h₀ same
      cases same
      rfl
    · exact ⟨(Heap.Extends.put ..).of_old fun _ _ _ => Set.mem_univ _, trivial⟩
  | .ifElse condition thenBody elseBody, s, h => by
    rw [executeKind]
    refine .bind (evaluate_rooted callee s condition h) fun v h₁ first => ?_
    have made : h.Extends Set.univ (h₁.child s .empty).2 := first.1.trans (.child _ h₁ s .empty)
    cases v with
    | boolean b =>
      cases b with
      | true =>
        exact child_bind_rooted (by simp) ((block_rooted callee thenBody _ .nil _ trivial).mono
          fun _ _ => .after made)
      | false =>
        exact child_bind_rooted (by simp) ((block_rooted callee elseBody _ .nil _ trivial).mono
          fun _ _ => .after made)
    | _ => exact .failAt
  | .forEach name iterable body, s, h => by
    rw [executeKind]
    refine .bind (evaluate_rooted callee s iterable h) fun v h₁ first => ?_
    cases v with
    | iterable elements =>
      exact (overElements_rooted (fun inner h => block_rooted callee body inner .nil h trivial)
        first.2).mono fun _ _ => .after first.1
    | _ => exact .failAt
  | .returns value, s, h => by
    rw [executeKind]
    exact .bind (evaluateOption_rooted callee s value h) fun v h₁ first => .pure first
  | .expr e, s, h => by
    rw [executeKind]
    exact .bind (evaluate_rooted callee s e h) fun v h₁ first => .pure first
  | .assign target value, s, h => by
    rw [executeKind]
    refine .bind (evaluate_rooted callee s value h) fun v h₁ first => ?_
    exact .bind (assign_rooted callee s target first.2) fun _ h₂ second =>
      .pure ⟨first.1.trans second, first.2.mono second⟩

theorem block_rooted (callee : Caller.Rooted call) :
    ∀ (xs : List Stmt) (s : ScopeId) (last : Value) (h : Heap Value), last.Rooted h →
      Keeps Heap.Chronicle (block call s last xs) h (Ended h)
  | [], s, last, h, rooted => by
    rw [block]
    exact .pure (.refl rooted)
  | x :: rest, s, last, h, _ => by
    rw [block]
    refine .bind (execute_rooted callee x s h) fun flow h₁ first => ?_
    cases flow with
    | returned v => exact .pure first
    | value v => exact (block_rooted callee rest s v h₁ first.2).mono fun _ _ => .after first.1

end

theorem enter_rooted (callee : Caller.Rooted call) : Caller.Rooted (enter call) := by
  intro f arguments h rooted
  unfold enter
  refine .tell_bind (fun _ chronicle => chronicle.call f arguments) ?_
  refine .lift_bind (.checkCall f arguments) fun _ => ?_
  refine child_bind_rooted ?_ (child_bind_rooted (by simp)
    (.bind (block_rooted callee f.definition.body _ .nil _ trivial) fun flow h₁ ended => ?_))
  · intro n v found
    exact rooted v (List.of_mem_zip (Bindings.mem_of_find?_ofList found)).2
  · have made := (Heap.Extends.child Set.univ h f.captured
      (.ofList (f.boundNames.zip arguments))).trans (.child Set.univ _ h.size .empty)
    refine .tell_bind (fun _ chronicle => chronicle.complete f flow _) (.pure ?_)
    cases flow with
    | value v => exact ⟨(ended.after made).1, trivial⟩
    | returned v => exact ended.after made

theorem callClosure_rooted : ∀ depth, Caller.Rooted (callClosure depth)
  | 0 => fun _ _ _ _ => .tooDeep
  | depth + 1 => enter_rooted (callClosure_rooted depth)

theorem statements_rooted (callee : Caller.Rooted call) (s : ScopeId) :
    ∀ (xs : List Stmt) (last : Value) (h : Heap Value),
      Keeps Heap.Chronicle (statements call s last xs) h fun _ _ => True
  | [], _, _ => .pure trivial
  | x :: rest, last, h => by
    rw [statements]
    refine .bind (execute_rooted callee x s h) fun flow h₁ _ => ?_
    cases flow with
    | value v => exact statements_rooted callee s rest v h₁
    | returned v => exact .failAt

end Traced

/-! ## Captured names -/

theorem RunSession.start_rooted (fixtures : Bool) : (start fixtures).heap.Rooted := by
  have objects : ∀ m ∈ startObjects fixtures,
      m < (start fixtures).heap.size ∧ (start fixtures).heap.parent? m = none := by
    cases fixtures <;> decide
  intro s n v found
  have known := (start_scoped .empty fixtures).values s n v found
  cases v with
  | object name m => exact objects m known
  | iterable elements => exact known
  | _ => trivial

theorem Script.chronicle (fixtures : Bool) (depth : Nat) (p : Script) :
    ∃ h, Heap.Chronicle h (p.trace fixtures depth) := by
  have keeps : Traced.Keeps _ (Traced.script depth _ p) _ _ :=
    Traced.statements_rooted (Traced.callClosure_rooted depth)
      (RunSession.start fixtures).scope p.statements .nil (RunSession.start fixtures).heap
  exact keeps.exists_events (.start (RunSession.start_rooted fixtures)) #[]

/-- From the definition of a closure to any of its calls, in a run of any script: a name that could
be seen from the captured scope can still be seen. It stands for the same variable, or for one that
was declared in between in a nearer scope; and it stands for the same one exactly if none was. -/
theorem Script.captured_names (fixtures : Bool) (depth : Nat) (p : Script)
    {before between after : List Event} {f g : Closure} {h₀ h₁ : Heap Value}
    {arguments : List Value}
    (trace : p.trace fixtures depth =
      before ++ .defined f h₀ :: (between ++ .called g arguments h₁ :: after))
    (again : (Callable.closure f).equals (.closure g) = true) {n : String} {t : ScopeId}
    (found : h₀.owner? f.captured n = some t) :
    Traced.forget (p.tracedWithin fixtures depth) = p.runWithin fixtures depth ∧
      ∃ t', h₁.owner? g.captured n = some t' ∧ (t' = t ∨ t < t' ∧ Declares between t' n) ∧
        (t' = t ↔ ∀ u ∈ h₀.chain f.captured, t < u → ¬Declares between u n) := by
  obtain ⟨h, chronicle⟩ := p.chronicle fixtures depth
  have since := chronicle.called before f h₀ between g arguments h₁ after trace
  have captured : f.captured = g.captured := by
    simp only [Callable.equals, Bool.and_eq_true, beq_iff_eq] at again
    exact again.2
  rw [← captured]
  obtain ⟨t', found', where'⟩ := since.owner? found
  refine ⟨p.forget_tracedWithin fixtures depth, t', found', where', ?_⟩
  rw [← since.owner?_eq_iff found, found', Option.some.injEq]

/-- A function refers to two variables around the block that it is defined in. The block then
declares one of them anew, and calls it. -/
def rebindingScript : Script :=
  ⟨[⟨default, .letVar ⟨"x", none, some ⟨default, .literal (.integer 1)⟩⟩⟩,
    ⟨default, .letVar ⟨"y", none, some ⟨default, .literal (.integer 10)⟩⟩⟩,
    ⟨default, .ifElse ⟨default, .literal (.boolean true)⟩
      [⟨default, .defFun ⟨"sum", [], some "Integer",
          [⟨default, .returns (some ⟨default, .binary .add
            ⟨default, .variable "x"⟩ ⟨default, .variable "y"⟩⟩)⟩]⟩⟩,
        ⟨default, .letVar ⟨"x", none, some ⟨default, .literal (.integer 2)⟩⟩⟩,
        ⟨default, .expr ⟨default, .call "sum" []⟩⟩] []⟩]⟩

/-- In a trace like that of `rebindingScript`, whether the function is called in a scope that finds
its `x` elsewhere than it was found at the definition. -/
def movesCaptured : List Event → Bool
  | [_, _, .defined f h₀, _, .called g _ h₁, _] =>
    decide ((Callable.closure f).equals (.closure g) = true ∧
      h₀.owner? f.captured "x" = some 0 ∧ h₁.owner? g.captured "x" = some 1 ∧
      h₀.owner? f.captured "y" = some 0)
  | _ => false

/-- The trace of `rebindingScript`: where a name is found from the scope that its function captures,
at the definition and at the call. -/
theorem rebindingScript_trace : ∃ before f h₀ between g arguments h₁ after,
    rebindingScript.trace false 1 =
      before ++ .defined f h₀ :: (between ++ .called g arguments h₁ :: after) ∧
    (Callable.closure f).equals (.closure g) = true ∧
    h₀.owner? f.captured "x" = some 0 ∧ h₁.owner? g.captured "x" = some 1 ∧
    h₀.owner? f.captured "y" = some 0 := by
  have judged : movesCaptured (rebindingScript.trace false 1) = true := by decide +kernel
  unfold movesCaptured at judged
  split at judged
  case h_1 a b f h₀ c g arguments h₁ d trace =>
    exact ⟨[a, b], f, h₀, [c], g, arguments, h₁, [d], trace, of_decide_eq_true judged⟩
  case h_2 => cases judged

/-- A declaration in the block moves `x`, in an accepted script: `sum` was checked with the variable
at the top, and when it is called it finds the one of the block. -/
theorem rebindingScript_moves :
    ∃ typed before f h₀ between g arguments h₁ after,
      (rebindingScript.check false).1 = .ok typed ∧
      rebindingScript.trace false 1 =
        before ++ .defined f h₀ :: (between ++ .called g arguments h₁ :: after) ∧
      (Callable.closure f).equals (.closure g) = true ∧
      h₀.owner? f.captured "x" = some 0 ∧ h₁.owner? g.captured "x" ≠ some 0 := by
  have accepted : (rebindingScript.check false).1.isOk = true := by decide
  obtain ⟨typed, ok⟩ := exists_eq_ok accepted
  obtain ⟨before, f, h₀, between, g, arguments, h₁, after, trace, again, found, moved, _⟩ :=
    rebindingScript_trace
  refine ⟨typed, before, f, h₀, between, g, arguments, h₁, after, ok, trace, again, found, ?_⟩
  rw [moved]
  decide

theorem Script.captured_names_rebindingScript :
    ∃ before f h₀ between g arguments h₁ after,
      rebindingScript.trace false 1 =
        before ++ .defined f h₀ :: (between ++ .called g arguments h₁ :: after) ∧
      (Callable.closure f).equals (.closure g) = true ∧
      h₀.owner? f.captured "y" = some 0 ∧
      ∃ t', h₁.owner? g.captured "y" = some t' ∧ (t' = 0 ∨ 0 < t' ∧ Declares between t' "y") ∧
        (t' = 0 ↔ ∀ u ∈ h₀.chain f.captured, 0 < u → ¬Declares between u "y") := by
  obtain ⟨before, f, h₀, between, g, arguments, h₁, after, trace, again, _, _, found⟩ :=
    rebindingScript_trace
  exact ⟨before, f, h₀, between, g, arguments, h₁, after, trace, again, found,
    (Script.captured_names false 1 rebindingScript trace again found).2⟩

end GradualScript
