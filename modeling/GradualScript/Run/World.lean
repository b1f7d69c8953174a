/-
# GradualScript.Run.World -- what a run changes, and its elementary steps

A running script changes two things: the heap of its scopes, and the lines that it has written.
Both are kept when the run fails. A run stops before its end for one of two reasons: a fault of the
script, or more nested calls than it is granted, which says nothing about the script.
-/

import GradualScript.Run.Error

namespace GradualScript

/-- What a run changes. -/
structure World where
  heap : Heap Value
  /-- The lines written so far. -/
  output : Array String
deriving Inhabited

/-- Why a run stopped before its end. -/
inductive Halt where
  | fault (fault : Located EvalError)
  /-- The calls were nested more deeply than granted. -/
  | tooDeep
deriving DecidableEq

/-- A step of a run. -/
abbrev Run (α : Type) := EStateM Halt World α

namespace Run

/-- Stops with a cause that no node claims yet. -/
@[inline] def fail {α : Type} (cause : EvalError) : Run α := throw (.fault { cause := cause })

/-- Stops with a cause that belongs to `node`. -/
@[inline] def failAt {α : Type} (node : NodeRef) (cause : EvalError) : Run α :=
  throw (.fault ⟨cause, some (.of node)⟩)

/-- Attributes the faults of a step to `node`, unless they belong to a node already. -/
@[inline] def located {α : Type} (node : NodeRef) (step : Run α) : Run α := fun w =>
  match step w with
  | .ok a w => .ok a w
  | .error (.fault fault) w => .error (.fault (fault.located node)) w
  | .error .tooDeep w => .error .tooDeep w

/-- A question to the heap. -/
@[inline] def read {α : Type} (question : Heap Value → α) : Run α := fun w =>
  .ok (question w.heap) w

/-- An operation on values as a step. -/
@[inline] def rule {α : Type} (result : Heap Value → Except EvalError α) : Run α := fun w =>
  match result w.heap with
  | .ok a => .ok a w
  | .error cause => .error (.fault { cause := cause }) w

/-- A new scope inside `s`. -/
@[inline] def child (s : ScopeId) (bindings : Bindings Value) : Run ScopeId := fun w =>
  let (t, heap) := w.heap.child s bindings
  .ok t { w with heap := heap }

/-- A new scope without a parent. -/
@[inline] def root : Run ScopeId := fun w =>
  let (t, heap) := w.heap.root .empty
  .ok t { w with heap := heap }

/-- Binds a name in `s` itself. -/
@[inline] def put (s : ScopeId) (name : String) (v : Value) : Run Unit := fun w =>
  .ok () { w with heap := w.heap.put s name v }

/-- Defines a name, or stops with `cause` if the scope binds it already. -/
def define (s : ScopeId) (name : String) (v : Value) (cause : EvalError) : Run Unit := do
  if ← read fun h => h.binds s name then fail cause else put s name v

/-- Writes a line. -/
@[inline] def write (line : String) : Run Unit := fun w =>
  .ok () { w with output := w.output.push line }

end Run

end GradualScript
