/-
# GradualScript.Proofs.Run.Stage -- runs that keep their place

The evaluator hands the active scope down from node to node, so there is nothing in its text that
could be left in a wrong state. An evaluator that keeps the active scope in its state has to swap it
around every block, loop and call, and to put it back on every way out, also that of a fault. The
staged evaluator does so: its state is the world of the run, the place where the run is (the active
scope, and the call whose body is being run), and a record of the moments that it has passed.

A property of all moments is about everything that happens while a script runs: the scopes that code
runs in, the values that it comes to, what is called with which arguments, and the heap at each of
these times. That the staged evaluator does what the evaluator does, and that it ends in the place
in which it began, is part of what `Proofs.Run.Discipline` says of each of its functions.
-/

import GradualScript.Proofs.Run.Trace

namespace GradualScript

/-! ## Moments -/

/-- What happens at a moment of a run. -/
inductive Act where
  /-- An expression is evaluated from here on. -/
  | evaluates (e : Expr)
  /-- A statement is executed from here on. -/
  | executes (x : Stmt)
  /-- An expression or a statement has come to a value. -/
  | yields (v : Value)
  /-- A function is called. -/
  | calls (f : Callable) (arguments : List Value)
  /-- A loop is about to bind `name` to its next element. -/
  | binds (name : String) (v : Value)
  /-- A `DEF` makes a closure. -/
  | makes (f : Closure)
  /-- An object expression with these methods has got a scope for its members. -/
  | builds (members : ScopeId) (methods : List Method)
  /-- A property of an object, found by a lookup, is assigned to. -/
  | assigns (object : Value) (name : String)

/-- A call whose body is being run, and the first scope that was made for it. -/
structure Activation where
  callee : Closure
  since : ScopeId

/-- Where a run is. -/
structure Place where
  /-- The active scope. -/
  scope : ScopeId
  /-- The innermost call; none at the top of a script. -/
  call : Option Activation

/-- What happens, where it happens, and the heap at that time. -/
structure Moment where
  place : Place
  heap : Heap Value
  act : Act

/-- A property of the object with members `s` is assigned to that only its prototypes provide. -/
def Moment.Shadows (now : Moment) (s : ScopeId) (n : String) : Prop :=
  ∃ objectName v, now.act = .assigns (.object objectName s) n ∧
    n ∉ (now.heap.bindings s).names ∧ Value.lookup now.heap s n = some v

/-- The state of a run that keeps its place. -/
structure Stage where
  world : World
  place : Place
  /-- What has happened so far, in order. -/
  moments : List Moment

abbrev Stage.heap (r : Stage) : Heap Value := r.world.heap

/-- The value that a statement has come to, whether it goes on or returns. -/
def Flow.carried : Flow → Value
  | .value v | .returned v => v

/-- A step of a run that keeps its place. -/
abbrev Staged (α : Type) := EStateM Halt Stage α

namespace Staged

variable {α : Type}

/-! ## Steps -/

/-- A step of the evaluator in the active scope. -/
def here (step : ScopeId → Run α) : Staged α := fun r =>
  match step r.place.scope r.world with
  | .ok a w => .ok a { r with world := w }
  | .error halt w => .error halt { r with world := w }

/-- A step of the evaluator that does not depend on the active scope. -/
def lift (step : Run α) : Staged α := here fun _ => step

/-- Records what happens. -/
def note (act : Act) : Staged Unit := fun r =>
  .ok () { r with moments := r.moments ++ [⟨r.place, r.heap, act⟩] }

/-- Records that a step begins, and the value that it comes to. -/
def told (act : Act) (value : α → Value) (step : Staged α) : Staged α := do
  note act
  let a ← step
  note (.yields (value a))
  return a

/-- Attributes the faults of a step to `node`, unless they belong to a node already. -/
def located (node : NodeRef) (step : Staged α) : Staged α := fun r =>
  match step r with
  | .ok a r => .ok a r
  | .error (.fault fault) r => .error (.fault (fault.located node)) r
  | .error .tooDeep r => .error .tooDeep r

/-- Takes a step in another place, and returns to where the run was, also if the step fails. -/
def within (place : Place) (step : Staged α) : Staged α := fun r =>
  match step { r with place := place } with
  | .ok a r' => .ok a { r' with place := r.place }
  | .error halt r' => .error halt { r' with place := r.place }

/-- Takes a step in a new scope inside the active one. -/
def enterChild (b : Bindings Value) (step : Staged α) : Staged α := do
  let s ← here fun s => Run.child s b
  fun r => within { r.place with scope := s } step r

/-- A sequence of steps is taken step by step. -/
theorem lift_bind {β : Type} (y : Run α) (g : α → Run β) :
    lift (y >>= g) = lift y >>= fun a => lift (g a) := by
  funext r
  simp only [lift, here, Bind.bind, EStateM.bind]
  cases y r.world <;> rfl

theorem lift_located (node : NodeRef) (y : Run α) :
    lift (Run.located node y) = located node (lift y) := by
  funext r
  simp only [lift, here, located, Run.located]
  cases y r.world with
  | ok a w => rfl
  | error halt w => cases halt <;> rfl

/-! ## The staged evaluator -/

/-- How a closure is called. -/
abbrev Caller := Closure → List Value → Staged Value

def invoke (call : Caller) (f : Callable) (arguments : List Value) : Staged Value := do
  note (.calls f arguments)
  match f with
  | .builtin f => lift (f.apply arguments)
  | .closure f => call f arguments

def overElements (name : String) (body : Staged Flow) : List Value → Staged Flow
  | [] => pure (.value .nil)
  | v :: rest => do
    note (.binds name v)
    match ← enterChild (.ofList [(name, v)]) (enterChild .empty body) with
    | .returned v => pure (.returned v)
    | .value _ => overElements name body rest

mutual

def evaluate (call : Caller) : Expr → Staged Value
  | ⟨node, kind⟩ => told (.evaluates ⟨node, kind⟩) id (located node (evaluateKind call kind))

def evaluateKind (call : Caller) : ExprKind → Staged Value
  | .literal value => pure (.ofLiteral value)
  | .group inner => evaluate call inner
  | .binary op left right => do
    let l ← evaluate call left
    match op.leftFault? l with
    | some cause => lift (Run.failAt left.node cause)
    | none =>
      match op.decided? l with
      | some v => pure v
      | none =>
        let r ← evaluate call right
        lift (Run.located right.node (Run.rule fun h => op.combine h l r))
  | .variable name => do
    match ← here fun s => Run.read fun h => h.resolve s name with
    | some v => pure v
    | none => lift (Run.fail (.undefinedVariable name))
  | .property receiver name => do
    let members ← lift (Run.membersOf receiver.node (← evaluate call receiver))
    match ← lift (Run.read fun h => Value.lookup h members name) with
    | some v => pure v
    | none => lift (Run.fail (.undefinedProperty name))
  | .call name arguments => do
    match ← here fun s => Run.read fun h => h.resolve s name with
    | some (.function f) => invoke call f (← evaluateAll call arguments)
    | some v => lift (Run.fail (.notFunction name v.kind))
    | none => lift (Run.fail (.undefinedFunction name))
  | .invoke receiver name arguments => do
    let object ← evaluate call receiver
    let members ← lift (Run.membersOf receiver.node object)
    match ← lift (Run.read fun h => Value.lookup h members name) with
    | some (.function f) => invoke call f (object :: (← evaluateAll call arguments))
    | some v => lift (Run.fail (.notMethod name v.kind))
    | none => lift (Run.fail (.undefinedMethod name))
  | .object name fields methods => do
    let members ← lift Run.root
    note (.builds members methods)
    defineFields call members fields
    lift (Run.defineMethods members methods)
    return .object name members

def evaluateAll (call : Caller) : List Expr → Staged (List Value)
  | [] => pure []
  | e :: rest => do
    let v ← evaluate call e
    return v :: (← evaluateAll call rest)

def evaluateOption (call : Caller) : Option Expr → Staged Value
  | none => pure .nil
  | some e => evaluate call e

def defineFields (call : Caller) (members : ScopeId) : List Field → Staged Unit
  | [] => pure ()
  | ⟨node, ⟨name, _, value⟩⟩ :: rest => do
    let v ← evaluateOption call value
    lift (Run.located node (Run.define members name v (.fieldDefined name)))
    defineFields call members rest

end

def assign (call : Caller) (target : Expr) (v : Value) : Staged Unit :=
  match target.kind with
  | .variable name => do
    match ← here fun s => Run.read fun h => h.owner? s name with
    | some owner => lift (Run.put owner name v)
    | none => lift (Run.failAt target.node (.undefinedVariable name))
  | .property receiver name => do
    let object ← evaluate call receiver
    let members ← lift (Run.membersOf receiver.node object)
    match ← lift (Run.read fun h => Value.lookup h members name) with
    | some _ => do
      note (.assigns object name)
      lift (Run.put members name v)
    | none => lift (Run.failAt target.node (.undefinedProperty name))
  | _ => lift (Run.failAt target.node .badTarget)

mutual

def execute (call : Caller) : Stmt → Staged Flow
  | ⟨node, kind⟩ =>
    told (.executes ⟨node, kind⟩) Flow.carried (located node (executeKind call kind))

def executeKind (call : Caller) : StmtKind → Staged Flow
  | .letVar ⟨name, _, value⟩ => do
    let v ← evaluateOption call value
    here fun s => Run.define s name v (.variableDefined name)
    return .value v
  | .defFun d => do
    lift (Run.checkParameters false d)
    let f : Closure ← here fun s => pure ⟨d, s, false⟩
    note (.makes f)
    here fun s => Run.define s d.name (.function (.closure f)) (.functionDefined d.name)
    return .value (.function (.closure f))
  | .ifElse condition thenBody elseBody => do
    match ← evaluate call condition with
    | .boolean true => enterChild .empty (block call .nil thenBody)
    | .boolean false => enterChild .empty (block call .nil elseBody)
    | v => lift (Run.failAt condition.node (.conditionNotBoolean v.kind))
  | .forEach name iterable body => do
    match ← evaluate call iterable with
    | .iterable elements => overElements name (block call .nil body) elements
    | v => lift (Run.failAt iterable.node (.notIterable v.kind))
  | .returns value => return .returned (← evaluateOption call value)
  | .expr e => return .value (← evaluate call e)
  | .assign target value => do
    let v ← evaluate call value
    assign call target v
    return .value v

def block (call : Caller) (last : Value) : List Stmt → Staged Flow
  | [] => pure (.value last)
  | stmt :: rest => do
    match ← execute call stmt with
    | .value v => block call v rest
    | .returned v => pure (.returned v)

end

def enter (call : Caller) (f : Closure) (arguments : List Value) : Staged Value := do
  lift (Run.checkCall f arguments)
  let bound ← lift (Run.child f.captured (.ofList (f.boundNames.zip arguments)))
  let inner ← lift (Run.child bound .empty)
  let flow ← within ⟨inner, some ⟨f, bound⟩⟩ (block call .nil f.definition.body)
  return flow.yielded

def callClosure : Nat → Caller
  | 0 => fun _ _ => throw .tooDeep
  | depth + 1 => enter (callClosure depth)

def statements (call : Caller) (last : Value) : List Stmt → Staged Value
  | [] => pure last
  | stmt :: rest => do
    match ← execute call stmt with
    | .value v => statements call v rest
    | .returned _ => lift (Run.failAt stmt.node .returnOutsideFunction)

def script (depth : Nat) (p : Script) : Staged Value :=
  statements (callClosure depth) .nil p.statements

/-! ## Whole runs -/

/-- What a step comes to, without its place and its record. -/
def forget : EStateM.Result Halt Stage α → EStateM.Result Halt World α
  | .ok a r => .ok a r.world
  | .error halt r => .error halt r.world

/-- The stage after a step, whether it succeeds or fails. -/
def after (x : Staged α) (r : Stage) : Stage :=
  match x r with
  | .ok _ r' => r'
  | .error _ r' => r'

/-- The stage after a session: scripts that are run one after the other in one scope, each of them
also if the one before it has failed. -/
def session (depth : Nat) : List Script → Stage → Stage
  | [], r => r
  | p :: rest, r => session depth rest (after (script depth p) { r with world := ⟨r.heap, #[]⟩ })

end Staged

/-- At the top of a script, before anything has happened. -/
def RunSession.stage (s : RunSession) : Stage := ⟨⟨s.heap, #[]⟩, ⟨s.scope, none⟩, []⟩

/-- The stage after a session that starts from the prelude, with room for `depth` calls nested in
each other. -/
def RunSession.ended (fixtures : Bool) (depth : Nat) (scripts : List Script) : Stage :=
  Staged.session depth scripts (start fixtures).stage

/-- The moments of such a session. -/
def RunSession.moments (fixtures : Bool) (depth : Nat) (scripts : List Script) : List Moment :=
  (ended fixtures depth scripts).moments

end GradualScript
