/-
# GradualScript.Proofs.Sessions -- a session is one script in parts

A session goes on from what the scripts before have left. What they have left is the scopes and
nothing else, so it does not matter where a script is cut into parts that are given one after the
other: up to the first part that fails, the session does what the whole script does.

The session of `Session` carries a heap and a scope from script to script because there is nothing
else for it to carry. A pass that keeps its context in its state could carry over more, and could
come back to the wrong place from a script that fails in the middle of a body. The touring checker
and the staged evaluator keep theirs; after any scripts, failed ones included, they stand where the
session stands (`Tour.At`, `Stage.At`).
-/

import GradualScript.Proofs.Check.Tour
import GradualScript.Proofs.Run.Environment
import GradualScript.Proofs.Run.Lines

namespace GradualScript

/-- One script after the other, as one script. -/
instance : Append Script := ⟨fun p q => ⟨p.statements ++ q.statements⟩⟩

@[simp] theorem Script.statements_append (p q : Script) :
    (p ++ q).statements = p.statements ++ q.statements := rfl

/-! ## Checking in parts -/

theorem Check.block_append (ctx : Context) : ∀ xs ys : List Stmt, Check.block ctx (xs ++ ys) = do
    let first ← Check.block ctx xs
    let second ← Check.block ctx ys
    return first ++ second
  | [], ys => by
    rw [Check.block, pure_bind]
    exact (bind_pure _).symm
  | x :: xs, ys => by
    rw [List.cons_append, Check.block, Check.block, Check.block_append ctx xs ys]
    simp only [bind_assoc, pure_bind, List.cons_append]

namespace CheckSession

/-- The whole is refused where its first part is, and else as its second part decides. -/
theorem check_append (s : CheckSession) (p q : Script) : s.check (p ++ q) = match s.check p with
    | (.error d, s') => (.error d, s')
    | (.ok typed, s') => ((s'.check q).1.map (typed ++ ·), (s'.check q).2) := by
  unfold check
  rw [Script.statements_append, Check.block_append]
  simp only [Bind.bind, EStateM.bind]
  cases Check.block { scope := s.scope } p.statements s.heap with
  | error fault h => rfl
  | ok typed h =>
    dsimp only
    cases Check.block { scope := s.scope } q.statements h <;> rfl

/-- The state after scripts that are checked one after the other, each also if the one before it has
been refused. -/
def checkAll (s : CheckSession) (scripts : List Script) : CheckSession :=
  scripts.foldl (fun s p => (s.check p).2) s

end CheckSession

/-! ## Running in parts -/

namespace Run

theorem statements_append (call : Caller) (s : ScopeId) : ∀ (xs ys : List Stmt) (last : Value),
    statements call s last (xs ++ ys) =
      statements call s last xs >>= fun v => statements call s v ys
  | [], ys, last => by rw [statements, pure_bind, List.nil_append]
  | x :: xs, ys, last => by
    rw [List.cons_append, statements, statements, bind_assoc]
    congr 1
    funext flow
    cases flow with
    | value v => exact statements_append call s xs ys v
    | returned v => rfl

theorem script_append (depth : Nat) (s : ScopeId) (p q : Script) : script depth s (p ++ q) =
    script depth s p >>= fun v => statements (callClosure depth) s v q.statements :=
  statements_append (callClosure depth) s p.statements q.statements .nil

theorem script_of_isEmpty {depth : Nat} {s : ScopeId} {p : Script} {w : World}
    (nothing : p.statements.isEmpty = true) : script depth s p w = .ok .nil w := by
  rw [script, List.isEmpty_iff.mp nothing]
  rfl

/-- Of what has gone before, the statements of a script see the scopes only. If there are none, the
value so far remains. -/
theorem statements_continue (depth : Nat) (s : ScopeId) (last : Value) (p : Script) (w : World) :
    statements (callClosure depth) s last p.statements w =
      if p.statements.isEmpty then .ok last w
      else behind w.output (script depth s p ⟨w.heap, #[]⟩) := by
  rw [← script_blind, World.behind_output, script]
  -- The first statement replaces the value so far.
  cases p.statements <;> rfl

end Run

namespace RunSession

/-- The whole stops where its first part does, and else comes to what its second part comes to. -/
theorem run_append (s : RunSession) (p q : Script) : s.run (p ++ q) = match (s.run p).result with
    | .error _ => s.run p
    | .ok v =>
      { result := if q.statements.isEmpty then .ok v else ((s.run p).after.run q).result
        output := (s.run p).output ++ ((s.run p).after.run q).output
        after := ((s.run p).after.run q).after } := by
  unfold run
  rw [Run.script_append]
  simp only [Bind.bind, EStateM.bind]
  cases Run.script callDepth s.scope p ⟨s.heap, #[]⟩ with
  | error halt w => rfl
  | ok v w =>
    dsimp only
    rw [Run.statements_continue]
    -- An empty second part comes to `NIL` by itself, and to `v` here.
    by_cases nothing : q.statements.isEmpty = true
    · simp only [if_pos nothing, Run.script_of_isEmpty nothing, Array.append_empty]
    · simp only [if_neg nothing]
      cases Run.script callDepth s.scope q ⟨w.heap, #[]⟩ <;> rfl

end RunSession

/-! ## Passes that keep their context -/

namespace Tour

variable {r : Tour} {s : CheckSession}

/-- Checks a script in the context in which the check stands, with a new record. -/
def check (r : Tour) (p : Script) : Except Diagnostic (List Typed.Stmt) × Tour :=
  match Toured.block p.statements { r with visits := [] } with
  | .ok typed r' => (.ok typed, r')
  | .error fault r' => (.error fault.checkDiagnostic, r')

/-- The state after scripts that are checked one after the other. -/
def checkAll (r : Tour) (scripts : List Script) : Tour :=
  scripts.foldl (fun r p => (r.check p).2) r

/-- The check stands at the top of a script, where the session stands. -/
structure At (r : Tour) (s : CheckSession) : Prop where
  heap : r.heap = s.heap
  context : r.context = { scope := s.scope }
  home : r.home = none
  inside : s.scope < s.heap.size

/-- A script of a session is checked as the session checks it, and then the check stands where the
session stands, also if the script is refused. -/
theorem At.check (stands : r.At s) (p : Script) :
    (r.check p).1 = (s.check p).1 ∧ (r.check p).2.At (s.check p).2 := by
  obtain ⟨h, ctx, home, visits⟩ := r
  obtain ⟨rfl, rfl, rfl, inside⟩ := stands
  -- What a tour does is known for every scope that exists; that it has only added to the heap is
  -- why the scope still exists afterwards.
  have tours : Tours _ (Toured.block p.statements) _ (start { scope := s.scope } s.heap) :=
    Toured.block_tours p.statements (ready_start inside)
  have grown := Nat.lt_of_lt_of_le inside tours.passes.heap.size_le
  have passes := tours.passes
  unfold Tour.check CheckSession.check
  unfold Toured.after at grown passes
  rcases tours.cases with ⟨typed, r', ended, result, -⟩ | ⟨fault, r', ended, result, -⟩
  all_goals
    rw [ended] at grown passes
    rw [show Check.block _ p.statements s.heap = _ from result]
    rw [show Toured.block p.statements ⟨s.heap, _, none, []⟩ = _ from ended]
    exact ⟨rfl, rfl, passes.context, passes.home, grown⟩

theorem At.checkAll : ∀ (scripts : List Script) {r : Tour} {s : CheckSession}, r.At s →
    (r.checkAll scripts).At (s.checkAll scripts)
  | [], _, _, stands => stands
  | p :: rest, _, _, stands => At.checkAll rest (stands.check p).2

/-- The check of a session from the prelude. -/
theorem at_start (fixtures : Bool) :
    (start { scope := (CheckSession.start fixtures).scope } (CheckSession.start fixtures).heap).At
      (CheckSession.start fixtures) :=
  ⟨rfl, rfl, rfl, by cases fixtures <;> decide⟩

end Tour

namespace Stage

variable {r : Stage} {s : RunSession}

/-- Runs a script in the place in which the run stands. -/
def run (r : Stage) (p : Script) : Except Halt Value × Stage :=
  match Staged.script callDepth p { r with world := ⟨r.heap, #[]⟩ } with
  | .ok v r' => (.ok v, r')
  | .error halt r' => (.error halt, r')

theorem run_snd (r : Stage) (p : Script) :
    (r.run p).2 = Staged.after (Staged.script callDepth p) { r with world := ⟨r.heap, #[]⟩ } := by
  unfold run Staged.after
  split <;> rename_i ended <;> rw [ended]

/-- The run stands at the top of a script, where the session stands. -/
structure At (r : Stage) (s : RunSession) : Prop where
  heap : r.heap = s.heap
  place : r.place = ⟨s.scope, none⟩

/-- A script of a session is run as the session runs it, and then the run stands where the session
stands, also if the script has stopped half way. -/
theorem At.run (stands : r.At s) (p : Script) : (r.run p).1 = (s.run p).result ∧
    (r.run p).2.world.output = (s.run p).output ∧ (r.run p).2.At (s.run p).after := by
  have same := Staged.forget_script callDepth p { r with world := ⟨r.heap, #[]⟩ }
  have place := Staged.script_place callDepth p { r with world := ⟨r.heap, #[]⟩ }
  unfold Stage.run RunSession.run
  simp only [stands.heap, stands.place] at same place ⊢
  rw [← same]
  unfold Staged.after at place
  cases ended : Staged.script callDepth p ⟨⟨s.heap, #[]⟩, ⟨s.scope, none⟩, r.moments⟩ with
  | ok v r' =>
    rw [ended] at place
    exact ⟨rfl, rfl, rfl, place⟩
  | error halt r' =>
    rw [ended] at place
    exact ⟨rfl, rfl, rfl, place⟩

theorem At.session : ∀ (scripts : List Script) {r : Stage} {s : RunSession}, r.At s →
    (Staged.session callDepth scripts r).At (s.runAll scripts)
  | [], _, _, stands => stands
  | p :: rest, r, _, stands => by
    have next := (stands.run p).2.2
    rw [run_snd] at next
    exact At.session rest next

end Stage

/-! ## Sessions and whole scripts -/

/-- A session does what the whole script does, wherever the script `p ++ q` is cut. From every
state, checking: if `p` is refused, so is the whole for the same reason, and the scopes are those
after `p`; else the whole is accepted or refused as `q` is after `p`, gives the typed statements of
both, and leaves the scopes that `q` leaves. Running: if `p` stops, so does the whole, with the same
fault, lines and scopes; else the whole comes to what `q` comes to after `p` (to the value of `p`,
if there is nothing in `q`), with the lines of `p` and then those of `q`, and with the scopes that
`q` leaves.

Nothing but the scopes is carried over. The passes that keep their context, begun at the prelude and
given any scripts, of which any may fail, stand where the session stands: in the scope of the
session, with no annotations of elsewhere, no declared result, no object and no call around them.
The next script does what it does in the session. -/
theorem session_is_whole :
    (∀ (s : CheckSession) (p q : Script), s.check (p ++ q) = match s.check p with
      | (.error d, s') => (.error d, s')
      | (.ok typed, s') => ((s'.check q).1.map (typed ++ ·), (s'.check q).2)) ∧
    (∀ (s : RunSession) (p q : Script), s.run (p ++ q) = match (s.run p).result with
      | .error _ => s.run p
      | .ok v =>
        { result := if q.statements.isEmpty then .ok v else ((s.run p).after.run q).result
          output := (s.run p).output ++ ((s.run p).after.run q).output
          after := ((s.run p).after.run q).after }) ∧
    ∀ (fixtures : Bool) (history : List Script),
      (let s := CheckSession.start fixtures
       let r := (Tour.start { scope := s.scope } s.heap).checkAll history
       r.At (s.checkAll history) ∧ ∀ p, (r.check p).1 = ((s.checkAll history).check p).1) ∧
      let s := RunSession.start fixtures
      let r := Staged.session callDepth history s.stage
      r.At (s.runAll history) ∧ ∀ p, (r.run p).1 = ((s.runAll history).run p).result ∧
        (r.run p).2.world.output = ((s.runAll history).run p).output := by
  refine ⟨CheckSession.check_append, RunSession.run_append, fun fixtures history => ⟨?_, ?_⟩⟩
  · have stands := (Tour.at_start fixtures).checkAll history
    exact ⟨stands, fun p => (stands.check p).1⟩
  · have stands : (Staged.session callDepth history (RunSession.start fixtures).stage).At _ :=
      Stage.At.session history ⟨rfl, rfl⟩
    exact ⟨stands, fun p => ⟨(stands.run p).1, (stands.run p).2.1⟩⟩

end GradualScript
