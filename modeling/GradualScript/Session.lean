/-
# GradualScript.Session -- scripts one after the other

A session starts from the prelude and takes scripts in order. What a script defines stays defined
for the next ones, also when the script fails half way. A single script is a session of one step.
-/

import GradualScript.Check.Walk
import GradualScript.Prelude
import GradualScript.Run.Evaluate

namespace GradualScript

/-! ## Checking -/

/-- The state between two scripts that are checked. -/
structure CheckSession where
  heap : Heap Ty
  scope : ScopeId

namespace CheckSession

def start (fixtures : Bool) : CheckSession :=
  let (scope, heap) := Prelude.types fixtures
  ⟨heap, scope⟩

/-- Checks a script. -/
def check (s : CheckSession) (p : Script) : Except Diagnostic (List Typed.Stmt) × CheckSession :=
  match Check.block { scope := s.scope } p.statements s.heap with
  | .ok statements heap => (.ok statements, { s with heap := heap })
  | .error fault heap => (.error fault.checkDiagnostic, { s with heap := heap })

/-- The names bound since `before`, with their types. -/
def defined (s before : CheckSession) : List (String × Ty) :=
  (s.heap.bindings s.scope).entries.drop (before.heap.bindings before.scope).entries.length

end CheckSession

/-- Checks a script on its own, and the heap that its types lie in. -/
def Script.check (fixtures : Bool) (p : Script) : Except Diagnostic (List Typed.Stmt) × Heap Ty :=
  let (result, s) := (CheckSession.start fixtures).check p
  (result, s.heap)

/-! ## Running -/

/-- How deeply calls may be nested: more deeply than the memory of a machine allows, so no script
that comes to an end is stopped for it. -/
def callDepth : Nat := 1000000000

/-- The state between two scripts that are run. -/
structure RunSession where
  heap : Heap Value
  scope : ScopeId

namespace RunSession

def start (fixtures : Bool) : RunSession :=
  let (scope, heap) := Prelude.values fixtures
  ⟨heap, scope⟩

/-- What a script comes to: its value or why it stopped, the lines that it wrote, and the state
after it. -/
structure Outcome where
  result : Except Halt Value
  output : Array String
  after : RunSession

/-- Runs a script. -/
def run (s : RunSession) (p : Script) : Outcome :=
  match Run.script callDepth s.scope p ⟨s.heap, #[]⟩ with
  | .ok v w => ⟨.ok v, w.output, { s with heap := w.heap }⟩
  | .error halt w => ⟨.error halt, w.output, { s with heap := w.heap }⟩

/-- The names bound since `before`, with their values. -/
def defined (s before : RunSession) : List (String × Value) :=
  (s.heap.bindings s.scope).entries.drop (before.heap.bindings before.scope).entries.length

end RunSession

/-- Runs a script on its own. -/
def Script.run (fixtures : Bool) (p : Script) : RunSession.Outcome :=
  (RunSession.start fixtures).run p

end GradualScript
