/-
# GradualScript.Run.Evaluate -- running scripts

The evaluator walks the tree of a script. Every operation checks its operands when it is done, so a
script need not have been checked before.

Only a call can make a run endless. The walk is therefore written over the tree, with the call of a
closure as a parameter (`call`): an expression without calls is evaluated by recursion on the
expression alone. `callClosure` closes the knot: a call that may be nested `depth + 1` times hands
`depth` to the calls in its body.

A block makes no scope of its own; the statement around it does. A `FOR` loop makes two scopes for
each element: one that binds the element, and inside it the one of the body.
-/

import GradualScript.Run.Builtin
import GradualScript.Run.Operator

namespace GradualScript

/-- How a statement ended: with a value, or with a `RETURN` on its way to the nearest call. -/
inductive Flow where
  | value (v : Value)
  | returned (v : Value)

instance : Inhabited Flow := ⟨.value .nil⟩

namespace Run

/-- How a closure is called. -/
abbrev Caller := Closure → List Value → Run Value

/-- The members of a receiver, which stands at `node`. -/
def membersOf (node : NodeRef) : Value → Run ScopeId
  | .object _ members => pure members
  | v => failAt node (.notObject v.kind)

/-- Calls what a call expression has found. -/
def invoke (call : Caller) : Callable → List Value → Run Value
  | .builtin f, arguments => f.apply arguments
  | .closure f, arguments => call f arguments

/-- Defines the methods of an object into the scope of its members. -/
def defineMethods (members : ScopeId) : List Method → Run Unit
  | [] => pure ()
  | ⟨node, d⟩ :: rest => do
    located node (define members d.name (.function (.closure ⟨d, members, true⟩))
      (.methodDefined d.name))
    defineMethods members rest

/-- The fault in the parameters of a definition: a repeated name, or in a method the name of its
receiver. The first parameter at fault counts. -/
def parameterFault? (isMethod : Bool) : List String → List String → Option EvalError
  | _, [] => none
  | seen, name :: rest =>
    if isMethod && name == "this" then some .thisParameter
    else if name ∈ seen then some (.duplicateParameter name)
    else parameterFault? isMethod (name :: seen) rest

/-- Stops if there is a fault in the parameters of a definition. -/
def checkParameters (isMethod : Bool) (d : Definition) : Run Unit :=
  match parameterFault? isMethod [] d.paramNames with
  | some cause => fail cause
  | none => pure ()

/-- Runs a loop: each element is bound to `name` in a new scope inside `s`, and `body` runs in
another one inside that. A `RETURN` ends the loop. -/
def overElements (s : ScopeId) (name : String) (body : ScopeId → Run Flow) :
    List Value → Run Flow
  | [] => pure (.value .nil)
  | v :: rest => do
    let binding ← child s (.ofList [(name, v)])
    let inner ← child binding .empty
    match ← body inner with
    | .returned v => pure (.returned v)
    | .value _ => overElements s name body rest

/-! ## Expressions and statements -/

mutual

/-- The value of an expression in scope `s`. -/
def evaluate (call : Caller) (s : ScopeId) : Expr → Run Value
  | ⟨node, kind⟩ => located node (evaluateKind call s kind)

def evaluateKind (call : Caller) (s : ScopeId) : ExprKind → Run Value
  | .literal value => pure (.ofLiteral value)
  | .group inner => evaluate call s inner
  | .binary op left right => do
    let l ← evaluate call s left
    match op.leftFault? l with
    | some cause => failAt left.node cause
    | none =>
      match op.decided? l with
      | some v => pure v
      | none =>
        let r ← evaluate call s right
        located right.node (rule fun h => op.combine h l r)
  | .variable name => do
    match ← read fun h => h.resolve s name with
    | some v => pure v
    | none => fail (.undefinedVariable name)
  | .property receiver name => do
    let members ← membersOf receiver.node (← evaluate call s receiver)
    match ← read fun h => Value.lookup h members name with
    | some v => pure v
    | none => fail (.undefinedProperty name)
  | .call name arguments => do
    match ← read fun h => h.resolve s name with
    | some (.function f) => invoke call f (← evaluateAll call s arguments)
    | some v => fail (.notFunction name v.kind)
    | none => fail (.undefinedFunction name)
  | .invoke receiver name arguments => do
    let object ← evaluate call s receiver
    let members ← membersOf receiver.node object
    match ← read fun h => Value.lookup h members name with
    | some (.function f) => invoke call f (object :: (← evaluateAll call s arguments))
    | some v => fail (.notMethod name v.kind)
    | none => fail (.undefinedMethod name)
  | .object name fields methods => do
    let members ← root
    defineFields call s members fields
    defineMethods members methods
    return .object name members

/-- The values of expressions, from left to right. -/
def evaluateAll (call : Caller) (s : ScopeId) : List Expr → Run (List Value)
  | [] => pure []
  | e :: rest => do
    let v ← evaluate call s e
    return v :: (← evaluateAll call s rest)

/-- The value that a binding or a `RETURN` starts from: `Nil` if none is given. -/
def evaluateOption (call : Caller) (s : ScopeId) : Option Expr → Run Value
  | none => pure .nil
  | some e => evaluate call s e

/-- Defines the fields of an object, whose initial values are evaluated in `s`. -/
def defineFields (call : Caller) (s members : ScopeId) : List Field → Run Unit
  | [] => pure ()
  | ⟨node, ⟨name, _, value⟩⟩ :: rest => do
    let v ← evaluateOption call s value
    located node (define members name v (.fieldDefined name))
    defineFields call s members rest

end

/-- Gives `target` the value `v`. A property has to be there already; one that is inherited is
shadowed in the receiver and not changed in the prototype. -/
def assign (call : Caller) (s : ScopeId) (target : Expr) (v : Value) : Run Unit :=
  match target.kind with
  | .variable name => do
    match ← read fun h => h.owner? s name with
    | some owner => put owner name v
    | none => failAt target.node (.undefinedVariable name)
  | .property receiver name => do
    let members ← membersOf receiver.node (← evaluate call s receiver)
    match ← read fun h => Value.lookup h members name with
    | some _ => put members name v
    | none => failAt target.node (.undefinedProperty name)
  | _ => failAt target.node .badTarget

mutual

/-- Runs a statement in scope `s`. -/
def execute (call : Caller) (s : ScopeId) : Stmt → Run Flow
  | ⟨node, kind⟩ => located node (executeKind call s kind)

def executeKind (call : Caller) (s : ScopeId) : StmtKind → Run Flow
  | .letVar ⟨name, _, value⟩ => do
    let v ← evaluateOption call s value
    define s name v (.variableDefined name)
    return .value v
  | .defFun d => do
    checkParameters false d
    let f := Value.function (.closure ⟨d, s, false⟩)
    define s d.name f (.functionDefined d.name)
    return .value f
  | .ifElse condition thenBody elseBody => do
    match ← evaluate call s condition with
    | .boolean true => do block call (← child s .empty) .nil thenBody
    | .boolean false => do block call (← child s .empty) .nil elseBody
    | v => failAt condition.node (.conditionNotBoolean v.kind)
  | .forEach name iterable body => do
    match ← evaluate call s iterable with
    | .iterable elements =>
      overElements s name (fun inner => block call inner .nil body) elements
    | v => failAt iterable.node (.notIterable v.kind)
  | .returns value => return .returned (← evaluateOption call s value)
  | .expr e => return .value (← evaluate call s e)
  | .assign target value => do
    let v ← evaluate call s value
    assign call s target v
    return .value v

/-- Runs statements until one returns. Without a `RETURN` the value is that of the last statement,
or `last` if there is none. -/
def block (call : Caller) (s : ScopeId) (last : Value) : List Stmt → Run Flow
  | [] => pure (.value last)
  | stmt :: rest => do
    match ← execute call s stmt with
    | .value v => block call s v rest
    | .returned v => pure (.returned v)

end

/-! ## Calls and scripts -/

/-- Runs the body of a closure. The arguments are bound in one new scope inside the captured one,
the receiver of a method to `this`, and the body runs in another one inside that. -/
def enter (call : Caller) (f : Closure) (arguments : List Value) : Run Value := do
  let d := f.definition
  if f.isMethod && arguments.isEmpty then fail (.noReceiver d.name)
  if arguments.length ≠ f.arity then
    fail (.argumentCount d.name d.params.length (arguments.length - f.isMethod.toNat))
  if f.isMethod then checkParameters true d
  let names := if f.isMethod then "this" :: d.paramNames else d.paramNames
  let bound ← child f.captured (.ofList (names.zip arguments))
  let inner ← child bound .empty
  match ← block call inner .nil d.body with
  | .value _ => return .nil
  | .returned v => return v

/-- Calls a closure, with room for `depth` calls nested in each other. -/
def callClosure : Nat → Caller
  | 0 => fun _ _ => throw .tooDeep
  | depth + 1 => enter (callClosure depth)

/-- Runs the statements of a script in `s`. The value is that of the last statement, or `last` if
there is none. No `RETURN` may get here. -/
def statements (call : Caller) (s : ScopeId) (last : Value) : List Stmt → Run Value
  | [] => pure last
  | stmt :: rest => do
    match ← execute call s stmt with
    | .value v => statements call s v rest
    | .returned _ => failAt stmt.node .returnOutsideFunction

/-- Runs a script in `s`, with room for `depth` calls nested in each other. -/
def script (depth : Nat) (s : ScopeId) (p : Script) : Run Value :=
  statements (callClosure depth) s .nil p.statements

end Run

end GradualScript
