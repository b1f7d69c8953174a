/-
# GradualScript.Proofs.Run.Environment -- runs only add to their environment

A run shares its scopes with closures and objects, and a call in the middle of an expression runs
code that knows other scopes than the expression does. What any code can do to a scope that was
there before is nevertheless little. The scope stays where it is, keeps its names in their order,
and gets a name in one of two ways: a `LET` or `DEF` defines it in the active scope, or it is given
to an object by assigning a property that a prototype of the object has.

This needs no knowledge of the values involved: it is what is left of `Discipline.Runs` for the
discipline that asks for nothing.
-/

import GradualScript.Proofs.Run.Discipline

namespace GradualScript

/-- Nothing is asked for. -/
def Discipline.lax : Discipline where
  heap _ _ := True
  value _ _ _ := True
  place _ _ _ := True

namespace Discipline

theorem kept_lax : lax.Kept := by
  constructor <;> intros <;> trivial

theorem ready_lax (r : Stage) : lax.Ready r.place.scope r := ⟨rfl, trivial, trivial⟩

end Discipline

namespace Staged

open Discipline

/-- In every state, an expression, a statement and a call do what they do in the evaluator. Whether
they succeed or fail, the run is back in its place then and has only added to the world: scopes keep
their parents and the names that they have, output stays written. An old scope gets a name only
where the statement itself defines it in the active scope, or where a property is assigned that
the prototypes of an object provide. No scope ever binds a name twice. -/
theorem environment_grows (depth : Nat) (r : Stage) :
    (∀ e : Expr,
      forget (evaluate (callClosure depth) e r) =
          Run.evaluate (Run.callClosure depth) r.place.scope e r.world ∧
        r.Grows ∅ (after (evaluate (callClosure depth) e) r)) ∧
    (∀ x : Stmt,
      forget (execute (callClosure depth) x r) =
          Run.execute (Run.callClosure depth) r.place.scope x r.world ∧
        r.Grows {q | q.1 = r.place.scope ∧ x.declares? = some q.2}
          (after (execute (callClosure depth) x) r)) ∧
    (∀ (f : Callable) (arguments : List Value),
      forget (invoke (callClosure depth) f arguments r) =
          Run.invoke (Run.callClosure depth) f arguments r.world ∧
        r.Grows ∅ (after (invoke (callClosure depth) f arguments) r)) ∧
    ∀ (r' : Stage) (s : ScopeId), (r'.heap.bindings s).names.Nodup := by
  have calls := callClosure_runs kept_lax depth
  refine ⟨fun e => ?_, fun x => ?_, fun f arguments => ?_, fun r' s => ?_⟩
  · have runs : lax.Runs ∅ _ _ r lax.Knows := evaluate_runs kept_lax calls e (ready_lax r)
    exact ⟨runs.forget, runs.passes.grows⟩
  · have runs : lax.Runs {q | q.1 = r.place.scope ∧ x.declares? = some q.2} _ _ r lax.KnowsFlow :=
      execute_runs kept_lax calls x (ready_lax r) fun n declared => ⟨rfl, declared⟩
    exact ⟨runs.forget, runs.passes.grows⟩
  · have known : lax.KnowsAll arguments r := fun _ _ => trivial
    have runs : lax.Runs ∅ _ _ r lax.Knows :=
      invoke_runs kept_lax calls f (ready_lax r) trivial known
    exact ⟨runs.forget, runs.passes.grows⟩
  · exact (r'.heap.bindings s).names_nodup

/-- The staged script does what the script does. -/
theorem forget_script (depth : Nat) (p : Script) (r : Stage) :
    forget (script depth p r) = Run.script depth r.place.scope p r.world :=
  (script_runs kept_lax depth p (ready_lax r)).forget

/-- A script ends in the place in which it began. -/
theorem script_place (depth : Nat) (p : Script) (r : Stage) :
    (after (script depth p) r).place = r.place :=
  (script_runs kept_lax depth p (ready_lax r)).passes.grows.place

end Staged

namespace RunSession

/-- The state after scripts that are run one after the other, each also if the one before it has
failed. -/
def runAll (s : RunSession) (scripts : List Script) : RunSession :=
  scripts.foldl (fun s p => (s.run p).after) s

/-- A staged script of a session leaves the heap that the script leaves. -/
theorem run_after (s : RunSession) (p : Script) {r : Stage} (scope : r.place.scope = s.scope)
    (heap : r.heap = s.heap) : (s.run p).after =
      ⟨(Staged.after (Staged.script callDepth p) { r with world := ⟨r.heap, #[]⟩ }).heap,
        s.scope⟩ := by
  have same := Staged.forget_script callDepth p { r with world := ⟨r.heap, #[]⟩ }
  simp only [scope, heap] at same
  simp only [run, ← same, heap, Staged.after]
  cases Staged.script callDepth p { r with world := ⟨s.heap, #[]⟩ } <;> rfl

theorem session_heap : ∀ (scripts : List Script) (s : RunSession) {r : Stage},
    r.place.scope = s.scope → r.heap = s.heap →
      (Staged.session callDepth scripts r).heap = (s.runAll scripts).heap
  | [], _, _, _, heap => heap
  | p :: rest, s, r, scope, heap => by
    have place := Staged.script_place callDepth p { r with world := ⟨r.heap, #[]⟩ }
    have next := run_after s p scope heap
    refine session_heap rest (s.run p).after ?_ ?_
    · rw [place, next]
      exact scope
    · rw [next]

/-- A staged session ends in the scopes in which the session ends. -/
theorem ended_heap (fixtures : Bool) (scripts : List Script) :
    (ended fixtures callDepth scripts).heap = ((start fixtures).runAll scripts).heap :=
  session_heap scripts (start fixtures) (r := (start fixtures).stage) rfl rfl

end RunSession

end GradualScript
