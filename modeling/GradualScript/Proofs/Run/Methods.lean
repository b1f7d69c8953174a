/-
# GradualScript.Proofs.Run.Methods -- what methods cannot see

A method belongs to its object. Its body is checked and run in scopes that end in the members of the
object that declares it, and nothing is around these: no scope of the program that the object stands
in. It is the same for what is inside the body: blocks and loops, and functions that are defined
there, whenever they are called. And it is the same for the method wherever it got to, since every
closure of a method, in whatever scope it is bound, has captured these members.

Of the scopes of a caller, a call sees those which the called closure has captured and no others.
For a method these are the members, if the caller is code of the same object. For a function that is
defined in a method they are the scopes around its definition, if they are around the call as well
(`Closure.CapturesScopes`).

In a check the home of the code is part of the state (`Tour`); in a run it is given by the lineage
of the closure that is being called (`Lineage`). In both, two places with different homes have no
scope in common.
-/

import GradualScript.Proofs.Check.Tour
import GradualScript.Proofs.Run.Environment
import GradualScript.Proofs.Run.Lineage

namespace GradualScript

/-! ## Checking -/

/-- The scopes that are looked through at a visit, the active one first. -/
def Visit.scopes (visit : Visit) : List ScopeId := visit.heap.chain visit.context.scope

/-- The scopes of the visit end in `m`, nothing is around it, and none of them is one of a visit to
code with another home. -/
structure Visit.EndsIn (visits : List Visit) (visit : Visit) (m : ScopeId) : Prop where
  last : visit.scopes.getLast? = some m
  alone : visit.heap.parent? m = none
  apart : ∀ other ∈ visits, other.home ≠ some m → ∀ t ∈ visit.scopes, t ∉ other.scopes

namespace Tour

variable {base m t : ScopeId} {r : Tour} {visit other : Visit}

/-- Every scope on the way ends where the home says. -/
theorem Recorded.outermost (recorded : r.Recorded base) (mem : visit ∈ r.visits)
    (there : t ∈ visit.scopes) : r.heap.outermost t = visit.home.getD base := by
  obtain ⟨placed, keeps⟩ := recorded visit mem
  have old : t < visit.heap.size :=
    Nat.lt_of_le_of_lt (Heap.le_of_mem_chain there) placed.inside
  rw [Heap.outermost_of_parents keeps.parent old, Heap.outermost_of_mem_chain there,
    placed.outermost]

/-- Code of different homes has no scope in common. -/
theorem Recorded.disjoint (recorded : r.Recorded base) (mem : visit ∈ r.visits)
    (otherMem : other ∈ r.visits) (home : visit.home = some m) (differ : other.home ≠ some m)
    (there : t ∈ visit.scopes) : t ∉ other.scopes := by
  intro also
  have same := (recorded.outermost mem there).symm.trans (recorded.outermost otherMem also)
  rw [home] at same
  cases elsewhere : other.home with
  | none =>
    rw [elsewhere] at same
    have same : m = base := same
    exact absurd ((recorded visit mem).1.younger m home) (Nat.not_lt.mpr (Nat.le_of_eq same))
  | some n =>
    rw [elsewhere] at same differ
    exact differ (congrArg some same.symm)

theorem Recorded.endsIn (recorded : r.Recorded base) (mem : visit ∈ r.visits)
    (home : visit.home = some m) : visit.EndsIn r.visits m := by
  have last : visit.heap.outermost visit.context.scope = m := by
    rw [(recorded visit mem).1.outermost, home]
    rfl
  refine ⟨?_, ?_, fun other otherMem differ t there => ?_⟩
  · rw [Visit.scopes, Heap.getLast?_chain, last]
  · rw [← last]
    exact Heap.parent?_outermost _ _
  · exact recorded.disjoint mem otherMem home differ there

end Tour

/-! ## Running -/

/-- The scopes that are looked through at a moment, the active one first. -/
def Moment.scopes (now : Moment) : List ScopeId := now.heap.chain now.place.scope

/-- The home of the code that runs at a moment: that of the closure which is being called. At the
top of a script there is none. -/
def Moment.HasHome (log : List Moment) (now : Moment) (home : Option ScopeId) : Prop :=
  match now.place.call with
  | none => home = none
  | some c => Lineage log home c.callee

/-- At this moment the call begins. -/
def Moment.Enters (caller : Moment) (c : Activation) : Prop :=
  (∃ arguments, caller.act = .calls (.closure c.callee) arguments) ∧ caller.heap.size = c.since

/-- What a closure with the home `m` has captured: the members `m` if it is a method, and otherwise
the scopes in which its `DEF` was executed. -/
def Closure.CapturesScopes (log : List Moment) (m : ScopeId) (f : Closure)
    (captured : List ScopeId) : Prop :=
  match f.isMethod with
  | true => captured = [m]
  | false => ∃ made ∈ log, made.act = .makes f ∧ captured = made.scopes

/-- The scopes of the moment end in `m`, nothing is around it, and none of them is one of a moment
at which code with another home runs. The caller may have those of them that the called closure has
captured, and none of the others. -/
structure Moment.EndsIn (log : List Moment) (now : Moment) (m : ScopeId) : Prop where
  last : now.scopes.getLast? = some m
  alone : now.heap.parent? m = none
  apart : ∀ other ∈ log, ∀ home, other.HasHome log home → home ≠ some m →
    ∀ t ∈ now.scopes, t ∉ other.scopes
  called : ∀ c, now.place.call = some c → ∃ caller ∈ log, caller.Enters c ∧
    ∃ captured, c.callee.CapturesScopes log m captured ∧
      ∀ t ∈ now.scopes, t ∈ captured ∨ t ∉ caller.scopes

/-- The closure has captured the members of the object expression that declares it, and nothing is
around them. -/
def Closure.CapturesMembers (log : List Moment) (h : Heap Value) (f : Closure) : Prop :=
  ∃ built ∈ log, ∃ methods, built.act = .builds f.captured methods ∧
    (∃ d ∈ methods, d.definition = f.definition) ∧
    f.captured < h.size ∧ h.parent? f.captured = none

namespace Heap.Descended

variable {base m t : ScopeId} {log : List Moment} {h h' : Heap Value} {now other : Moment}
  {home : Option ScopeId} {f : Closure} {c : Activation}

theorem exists_home (known : h.Descended base log) (mem : now ∈ log) :
    ∃ home, now.HasHome log home := by
  unfold Moment.HasHome
  cases call : now.place.call with
  | none => exact ⟨none, rfl⟩
  | some c =>
    obtain ⟨_, home, lineage⟩ := ((known.moments now mem).1.place.call c call).callee
    exact ⟨home, lineage⟩

/-- The home of the body of a method is what the method has captured. -/
theorem hasHome_captured (known : h.Descended base log) (mem : now ∈ log)
    (call : now.place.call = some c) (method : c.callee.isMethod = true) :
    now.HasHome log (some c.callee.captured) := by
  obtain ⟨_, home, lineage⟩ := ((known.moments now mem).1.place.call c call).callee
  obtain ⟨_, _, _, _, _, rfl⟩ := lineage.exists_builds known method
  rw [Moment.HasHome, call]
  exact lineage

/-- The scopes of a moment end where its home says. -/
theorem outermost_scope (known : h.Descended base log) (mem : now ∈ log)
    (hasHome : now.HasHome log home) : now.heap.outermost now.place.scope = home.getD base := by
  obtain ⟨here, grows⟩ := known.moments now mem
  unfold Moment.HasHome at hasHome
  cases call : now.place.call with
  | none =>
    rw [call] at hasHome
    rw [show home = none from hasHome]
    exact here.place.top call
  | some c =>
    rw [call] at hasHome
    have called := here.place.call c call
    rw [← called.outermost, ← Heap.outermost_of_parents grows.parent called.callee.1]
    exact (Lineage.outermost hasHome known).2

theorem outermost (known : h.Descended base log) (mem : now ∈ log)
    (hasHome : now.HasHome log home) (there : t ∈ now.scopes) :
    h.outermost t = home.getD base := by
  obtain ⟨here, grows⟩ := known.moments now mem
  have old : t < now.heap.size :=
    Nat.lt_of_le_of_lt (Heap.le_of_mem_chain there) here.place.inside
  rw [Heap.outermost_of_parents grows.parent old, Heap.outermost_of_mem_chain there,
    known.outermost_scope mem hasHome]

/-- A home is younger than the scope of the script. -/
theorem base_lt (known : h.Descended base log) (hasHome : now.HasHome log (some m)) : base < m := by
  unfold Moment.HasHome at hasHome
  split at hasHome
  · cases hasHome
  · exact Lineage.base_lt hasHome known

/-- Code of different homes has no scope in common. -/
theorem disjoint (known : h.Descended base log) (mem : now ∈ log) (otherMem : other ∈ log)
    (hasHome : now.HasHome log (some m)) (elsewhere : other.HasHome log home)
    (differ : home ≠ some m) (there : t ∈ now.scopes) : t ∉ other.scopes := by
  intro also
  have same := (known.outermost mem hasHome there).symm.trans
    (known.outermost otherMem elsewhere also)
  cases home with
  | none =>
    have same : m = base := same
    exact absurd (known.base_lt hasHome) (Nat.not_lt.mpr (Nat.le_of_eq same))
  | some n => exact differ (congrArg some same.symm)

theorem capturesScopes (known : h.Descended base log) (lineage : Lineage log (some m) f) :
    f.CapturesScopes log m (h.chain f.captured) := by
  have of_makes : ∀ made ∈ log, made.act = .makes f →
      f.CapturesScopes log m (h.chain f.captured) := by
    intro made mem makes
    obtain ⟨then_, grows⟩ := known.moments made mem
    obtain ⟨here, function⟩ := then_.makes f makes
    rw [Closure.CapturesScopes, function, here, grows.chain then_.place.inside]
    exact ⟨made, mem, makes, rfl⟩
  cases lineage with
  | method mem built declared =>
    obtain ⟨then_, grows⟩ := known.moments _ mem
    obtain ⟨_, inside, root⟩ := then_.builds _ _ built
    exact Heap.chain_of_no_parent ((grows.parent _ inside).trans root)
  | inner mem made _ _ => exact of_makes _ mem made

/-- In a call all scopes but the captured ones have been made for the call. -/
theorem of_caller (known : h.Descended base log) (mem : now ∈ log)
    (hasHome : now.HasHome log (some m)) (call : now.place.call = some c) :
    ∃ caller ∈ log, caller.Enters c ∧ ∃ captured, c.callee.CapturesScopes log m captured ∧
      ∀ t ∈ now.scopes, t ∈ captured ∨ t ∉ caller.scopes := by
  obtain ⟨here, grows⟩ := known.moments now mem
  have called := here.place.call c call
  obtain ⟨caller, callerMem, act, since⟩ := called.called
  rw [Moment.HasHome, call] at hasHome
  refine ⟨caller, callerMem, ⟨act, since⟩, _, known.capturesScopes hasHome, fun t there => ?_⟩
  obtain ⟨made, chain, young⟩ := called.chain
  rw [Moment.scopes, chain, List.mem_append, ← grows.chain called.callee.1] at there
  refine there.symm.imp_right fun new old => absurd (young t new) (Nat.not_le.mpr ?_)
  rw [← since]
  exact Nat.lt_of_le_of_lt (Heap.le_of_mem_chain old)
    (known.moments caller callerMem).1.place.inside

theorem endsIn (known : h.Descended base log) (mem : now ∈ log)
    (hasHome : now.HasHome log (some m)) : now.EndsIn log m := by
  have last : now.heap.outermost now.place.scope = m := known.outermost_scope mem hasHome
  refine ⟨?_, ?_, fun other otherMem home elsewhere differ t there => ?_, fun c call => ?_⟩
  · rw [Moment.scopes, Heap.getLast?_chain, last]
  · rw [← last]
    exact Heap.parent?_outermost _ _
  · exact known.disjoint mem otherMem hasHome elsewhere differ there
  · exact known.of_caller mem hasHome call

/-- The closure of a method, wherever it is found. -/
theorem capturesMembers (known : h.Descended base log) (grows : h'.Extends Set.univ h)
    (value : (Value.function (.closure f)).Descended log h') (method : f.isMethod = true) :
    f.CapturesMembers log h' := by
  obtain ⟨inside, home, lineage⟩ := value
  obtain ⟨built, mem, methods, builds, declared, _⟩ := lineage.exists_builds known method
  obtain ⟨then_, older⟩ := known.moments built mem
  obtain ⟨_, existed, root⟩ := then_.builds _ _ builds
  refine ⟨built, mem, methods, builds, declared, inside, ?_⟩
  rw [← grows.parent _ inside, older.parent _ existed]
  exact root

end Heap.Descended

/-! ## Both passes -/

/-- The scopes of a method end in the members of its object, in both passes.

In a check of statements, at every visit to the code of a method the last scope is the scope of the
members, nothing is around it, and no scope is shared with a visit to code elsewhere.

In a session, which goes through all its scripts from a prelude on, the code that runs at a moment
has a home; in the body of a method it is the scope that the method has captured. If the home is the
object with the members `m`, then the last scope is `m`, nothing is around it, no scope is shared
with code of another home, and none with the caller unless the called closure has captured it. The
closure of a method captures the members of the object expression that declares it, at every moment
at which it is bound in some scope or on its way, and in the end. -/
theorem methods_end_in_members :
    (∀ (ctx : Context) (h : Heap Ty) (xs : List Stmt), ctx.scope < h.size →
      Toured.forget (Toured.block xs (.start ctx h)) = Check.block ctx xs h ∧
      ∀ visit ∈ (Toured.after (Toured.block xs) (.start ctx h)).visits, ∀ m,
        visit.home = some m →
          visit.EndsIn (Toured.after (Toured.block xs) (.start ctx h)).visits m) ∧
    (∀ (fixtures : Bool) (depth : Nat) (scripts : List Script) (log : List Moment),
      log = RunSession.moments fixtures depth scripts →
      (∀ now ∈ log,
        (∃ home, now.HasHome log home) ∧
        (∀ c, now.place.call = some c → c.callee.isMethod = true →
          now.HasHome log (some c.callee.captured)) ∧
        (∀ m, now.HasHome log (some m) → now.EndsIn log m) ∧
        (∀ f, now.Occurs (.function (.closure f)) → f.isMethod = true →
          f.CapturesMembers log now.heap)) ∧
      (RunSession.ended fixtures depth scripts).heap.Holds fun v =>
        ∀ f, v = .function (.closure f) → f.isMethod = true →
          f.CapturesMembers log (RunSession.ended fixtures depth scripts).heap) ∧
    (∀ (fixtures : Bool) (scripts : List Script),
      (RunSession.ended fixtures callDepth scripts).heap =
        ((RunSession.start fixtures).runAll scripts).heap) := by
  refine ⟨fun ctx h xs inside => ?_, ?_, RunSession.ended_heap⟩
  · have tours := Toured.block_tours xs (Tour.ready_start inside)
    exact ⟨tours.forget, fun visit mem m home => tours.passes.recorded.endsIn mem home⟩
  · rintro fixtures depth scripts _ rfl
    have known := RunSession.moments_descended fixtures depth scripts
    refine ⟨fun now mem => ⟨known.exists_home mem, fun c => known.hasHome_captured mem,
      fun m => known.endsIn mem, ?_⟩, ?_⟩
    · intro f there method
      obtain ⟨here, grows⟩ := known.moments now mem
      exact known.capturesMembers grows (here.occurs _ there) method
    · rintro s n _ found f rfl method
      exact known.capturesMembers (.refl _ _) (known.bound s n _ found) method

/-- A method calls a function inside a branch. -/
def branchingMethod : Script :=
  ⟨[⟨default, .letVar ⟨"counter", none, some ⟨default, .object (some "Counter")
      [⟨default, ⟨"count", none, some ⟨default, .literal (.integer 7)⟩⟩⟩]
      [⟨default, ⟨"read", [], none,
        [⟨default, .defFun ⟨"inner", [], none,
            [⟨default, .returns (some ⟨default, .variable "count"⟩)⟩]⟩⟩,
          ⟨default, .ifElse ⟨default, .literal (.boolean true)⟩
            [⟨default, .expr ⟨default, .call "inner" []⟩⟩] []⟩]⟩⟩]⟩⟩⟩,
    ⟨default, .expr ⟨default, .invoke ⟨default, .variable "counter"⟩ "read" []⟩⟩]⟩

/-- What a check of these statements after the prelude visits. -/
def branchingMethodVisits : List Visit :=
  let session := CheckSession.start false
  (Toured.after (Toured.block branchingMethod.statements)
    (.start { scope := session.scope } session.heap)).visits

/-- The branch is inside the scope of the body in the check, and inside those of the parameters and
of the body in the run. -/
theorem methods_end_in_members_branchingMethod :
    (∃ visit ∈ branchingMethodVisits, ∃ m, visit.home = some m ∧ visit.scopes.length = 3 ∧
      visit.EndsIn branchingMethodVisits m) ∧
    ∃ log, log = RunSession.moments false 2 [branchingMethod] ∧
      ∃ now ∈ log, ∃ c, now.place.call = some c ∧ c.callee.isMethod = true ∧
        now.scopes.length = 4 ∧ now.EndsIn log c.callee.captured := by
  refine ⟨?_, ⟨_, rfl, ?_⟩⟩
  · have inside : (CheckSession.start false).scope < (CheckSession.start false).heap.size := by
      decide
    have judged : (branchingMethodVisits.any fun visit =>
        visit.home.isSome && visit.scopes.length == 3) = true := by
      decide +kernel
    obtain ⟨visit, mem, judged⟩ := List.any_eq_true.mp judged
    rw [Bool.and_eq_true, beq_iff_eq, Option.isSome_iff_exists] at judged
    obtain ⟨⟨m, home⟩, deep⟩ := judged
    exact ⟨visit, mem, m, home, deep,
      (methods_end_in_members.1 { scope := (CheckSession.start false).scope } _ _ inside).2
        visit mem m home⟩
  · have judged : ((RunSession.moments false 2 [branchingMethod]).any fun now =>
        match now.place.call with
        | some c => c.callee.isMethod && now.scopes.length == 4
        | none => false) = true := by
      decide +kernel
    obtain ⟨now, mem, judged⟩ := List.any_eq_true.mp judged
    split at judged
    case h_2 => cases judged
    case h_1 c call =>
      rw [Bool.and_eq_true, beq_iff_eq] at judged
      obtain ⟨method, deep⟩ := judged
      obtain ⟨_, home, endsIn, _⟩ :=
        (methods_end_in_members.2.1 false 2 [branchingMethod] _ rfl).1 now mem
      exact ⟨now, mem, c, call, method, deep, endsIn _ (home c call method)⟩

/-- Whether a call runs that is not inside the scope `base` and has a scope with a parent in common
with every moment at which it may have begun. -/
def Moment.sharesCallers (log : List Moment) (base : ScopeId) (now : Moment) : Bool :=
  match now.place.call with
  | none => false
  | some c => now.heap.outermost now.place.scope != base && log.all fun caller =>
      match caller.act with
      | .calls (.closure _) _ => caller.heap.size != c.since || now.scopes.any fun t =>
          caller.scopes.contains t && (now.heap.parent? t).isSome
      | _ => true

/-- The scopes of the parameters and of the body of `read` are around the branch, in which `inner`
is called, and around `inner` itself. -/
theorem branchingMethod_shares_scopes :
    ∃ log, log = RunSession.moments false 2 [branchingMethod] ∧ ∃ now ∈ log, ∃ m c,
      now.HasHome log (some m) ∧ now.place.call = some c ∧ ∃ caller ∈ log, caller.Enters c ∧
        ∃ t ∈ now.scopes, t ∈ caller.scopes ∧ t ≠ m := by
  have known := RunSession.moments_descended false 2 [branchingMethod]
  refine ⟨_, rfl, ?_⟩
  generalize made : RunSession.moments false 2 [branchingMethod] = log at known
  have judged : (log.any (Moment.sharesCallers log (RunSession.start false).scope)) = true := by
    rw [← made]
    decide +kernel
  obtain ⟨now, mem, judged⟩ := List.any_eq_true.mp judged
  rw [Moment.sharesCallers] at judged
  split at judged
  case h_1 => cases judged
  case h_2 c call =>
    rw [Bool.and_eq_true, bne_iff_ne] at judged
    obtain ⟨inner, callers⟩ := judged
    obtain ⟨home, hasHome⟩ := known.exists_home mem
    have last := known.outermost_scope mem hasHome
    obtain ⟨caller, callerMem, ⟨arguments, calls⟩, since⟩ :=
      ((known.moments now mem).1.place.call c call).called
    have shared := List.all_eq_true.mp callers caller callerMem
    simp only [calls, since, bne_self_eq_false, Bool.false_or] at shared
    obtain ⟨t, there, both⟩ := List.any_eq_true.mp shared
    rw [Bool.and_eq_true, List.contains_iff_mem] at both
    cases home with
    | none => exact absurd last inner
    | some m =>
      refine ⟨now, mem, m, c, hasHome, call, caller, callerMem, ⟨⟨arguments, calls⟩, since⟩,
        t, there, both.1, ?_⟩
      rintro rfl
      rw [(known.endsIn mem hasHome).alone] at both
      cases both.2

end GradualScript
