/-
# GradualScript.Proofs.Run.Trace -- runs that tell what they do

What a run comes to does not say how it got there. Some properties are about the way: what a name
stood for when a function was defined and what it stands for when the function is called, or what a
call has yielded to the script around it. The traced evaluator does what the evaluator does, and
writes down four kinds of events while it does it: that a variable was declared or a function
defined, that a closure was called, and that its body came to an end.

Nothing in a run depends on what is written down. A traced run is the run with a list beside it
(`Traced.script_follows`), so a property of all traces is one of all runs. Such properties are
proved with `Traced.Ends`, which says what heap and what events a step ends with, also where it is
stopped, and with `Traced.Keeps`, for an invariant of the two.
-/

import GradualScript.Proofs.Run.Ends
import GradualScript.Session

namespace GradualScript

/-- What a run can be seen to do. -/
inductive Event where
  /-- A `LET` has bound `name` in `s`. -/
  | declared (s : ScopeId) (name : String)
  /-- A `DEF` has bound the name of `f` in the scope that `f` captures; `after` is the heap then. -/
  | defined (f : Closure) (after : Heap Value)
  /-- `f` is called; `before` is the heap that the call finds. -/
  | called (f : Closure) (arguments : List Value) (before : Heap Value)
  /-- The body of `f` has ended with `flow`, for which the call yields `result`. -/
  | completed (f : Closure) (flow : Flow) (result : Value)

/-- Where an element of a list stands that has got one more at its end. -/
theorem snoc_eq_append_cons {α : Type} {xs before after : List α} {x y : α}
    (same : xs ++ [x] = before ++ y :: after) :
    (xs = before ∧ x = y ∧ after = []) ∨ ∃ init, after = init ++ [x] ∧
      xs = before ++ y :: init := by
  rcases List.eq_nil_or_concat after with rfl | ⟨init, last, rfl⟩
  · left
    obtain ⟨rfl, last⟩ := List.append_inj' same rfl
    exact ⟨rfl, List.head_eq_of_cons_eq last, rfl⟩
  · right
    rw [List.concat_eq_append, ← List.cons_append, ← List.append_assoc] at same
    obtain ⟨rfl, last⟩ := List.append_inj' same rfl
    rw [List.concat_eq_append, List.head_eq_of_cons_eq last]
    exact ⟨init, rfl, rfl⟩

/-- The value of a call whose body ended so. -/
def Flow.yielded : Flow → Value
  | .value _ => .nil
  | .returned v => v

/-- A world, and the events that led to it, in order. -/
structure Recorded where
  world : World
  events : List Event

theorem Run.define_eq (s : ScopeId) (name : String) (v : Value) (cause : EvalError) (w : World) :
    Run.define s name v cause w = if w.heap.binds s name then
      .error (.fault { cause := cause }) w
    else .ok () { w with heap := w.heap.put s name v } := by
  show (if w.heap.binds s name then fail cause else put s name v : Run Unit) w = _
  split <;> rfl

/-- What a call checks before it runs the body. -/
def Run.checkCall (f : Closure) (arguments : List Value) : Run Unit := do
  if f.isMethod && arguments.isEmpty then fail (.noReceiver f.definition.name)
  if arguments.length ≠ f.arity then
    fail (.argumentCount f.definition.name f.definition.params.length
      (arguments.length - f.isMethod.toNat))
  if f.isMethod then checkParameters true f.definition

/-- A call that passes its checks runs the body. -/
theorem Run.enter_eq (call : Run.Caller) (f : Closure) (arguments : List Value) :
    Run.enter call f arguments = (do Run.checkCall f arguments; Run.runBody call f arguments) := by
  unfold Run.enter Run.checkCall Run.runBody Closure.boundNames
  dsimp only
  by_cases receiver : (f.isMethod && arguments.isEmpty) = true
  · rw [if_pos receiver, if_pos receiver]
    rfl
  rw [if_neg receiver, if_neg receiver]
  by_cases count : arguments.length ≠ f.arity
  · rw [if_pos count, if_pos count]
    rfl
  rw [if_neg count, if_neg count]
  split_ifs <;> rfl

/-- A step of a run that tells what it does. -/
abbrev Traced (α : Type) := EStateM Halt Recorded α

namespace Traced

variable {α β : Type}

/-- A step about which there is nothing to tell. -/
def lift (step : Run α) : Traced α := fun r =>
  match step r.world with
  | .ok a w => .ok a { r with world := w }
  | .error halt w => .error halt { r with world := w }

/-- Writes down an event. -/
def tell (event : Heap Value → Event) : Traced Unit := fun r =>
  .ok () { r with events := r.events ++ [event r.world.heap] }

/-- Attributes the faults of a step to `node`, unless they belong to a node already. -/
def located (node : NodeRef) (step : Traced α) : Traced α := fun r =>
  match step r with
  | .ok a r => .ok a r
  | .error (.fault fault) r => .error (.fault (fault.located node)) r
  | .error .tooDeep r => .error .tooDeep r

/-! ## The traced evaluator -/

/-- How a closure is called. -/
abbrev Caller := Closure → List Value → Traced Value

def invoke (call : Caller) : Callable → List Value → Traced Value
  | .builtin f, arguments => lift (f.apply arguments)
  | .closure f, arguments => call f arguments

def defineMethods (members : ScopeId) : List Method → Traced Unit
  | [] => pure ()
  | ⟨node, d⟩ :: rest => do
    located node (lift (Run.define members d.name (.function (.closure ⟨d, members, true⟩))
      (.methodDefined d.name)))
    defineMethods members rest

def overElements (s : ScopeId) (name : String) (body : ScopeId → Traced Flow) :
    List Value → Traced Flow
  | [] => pure (.value .nil)
  | v :: rest => do
    let binding ← lift (Run.child s (.ofList [(name, v)]))
    let inner ← lift (Run.child binding .empty)
    match ← body inner with
    | .returned v => pure (.returned v)
    | .value _ => overElements s name body rest

mutual

def evaluate (call : Caller) (s : ScopeId) : Expr → Traced Value
  | ⟨node, kind⟩ => located node (evaluateKind call s kind)

def evaluateKind (call : Caller) (s : ScopeId) : ExprKind → Traced Value
  | .literal value => pure (.ofLiteral value)
  | .group inner => evaluate call s inner
  | .binary op left right => do
    let l ← evaluate call s left
    match op.leftFault? l with
    | some cause => lift (Run.failAt left.node cause)
    | none =>
      match op.decided? l with
      | some v => pure v
      | none =>
        let r ← evaluate call s right
        lift (Run.located right.node (Run.rule fun h => op.combine h l r))
  | .variable name => do
    match ← lift (Run.read fun h => h.resolve s name) with
    | some v => pure v
    | none => lift (Run.fail (.undefinedVariable name))
  | .property receiver name => do
    let members ← lift (Run.membersOf receiver.node (← evaluate call s receiver))
    match ← lift (Run.read fun h => Value.lookup h members name) with
    | some v => pure v
    | none => lift (Run.fail (.undefinedProperty name))
  | .call name arguments => do
    match ← lift (Run.read fun h => h.resolve s name) with
    | some (.function f) => invoke call f (← evaluateAll call s arguments)
    | some v => lift (Run.fail (.notFunction name v.kind))
    | none => lift (Run.fail (.undefinedFunction name))
  | .invoke receiver name arguments => do
    let object ← evaluate call s receiver
    let members ← lift (Run.membersOf receiver.node object)
    match ← lift (Run.read fun h => Value.lookup h members name) with
    | some (.function f) => invoke call f (object :: (← evaluateAll call s arguments))
    | some v => lift (Run.fail (.notMethod name v.kind))
    | none => lift (Run.fail (.undefinedMethod name))
  | .object name fields methods => do
    let members ← lift Run.root
    defineFields call s members fields
    defineMethods members methods
    return .object name members

def evaluateAll (call : Caller) (s : ScopeId) : List Expr → Traced (List Value)
  | [] => pure []
  | e :: rest => do
    let v ← evaluate call s e
    return v :: (← evaluateAll call s rest)

def evaluateOption (call : Caller) (s : ScopeId) : Option Expr → Traced Value
  | none => pure .nil
  | some e => evaluate call s e

def defineFields (call : Caller) (s members : ScopeId) : List Field → Traced Unit
  | [] => pure ()
  | ⟨node, ⟨name, _, value⟩⟩ :: rest => do
    let v ← evaluateOption call s value
    located node (lift (Run.define members name v (.fieldDefined name)))
    defineFields call s members rest

end

def assign (call : Caller) (s : ScopeId) (target : Expr) (v : Value) : Traced Unit :=
  match target.kind with
  | .variable name => do
    match ← lift (Run.read fun h => h.owner? s name) with
    | some owner => lift (Run.put owner name v)
    | none => lift (Run.failAt target.node (.undefinedVariable name))
  | .property receiver name => do
    let members ← lift (Run.membersOf receiver.node (← evaluate call s receiver))
    match ← lift (Run.read fun h => Value.lookup h members name) with
    | some _ => lift (Run.put members name v)
    | none => lift (Run.failAt target.node (.undefinedProperty name))
  | _ => lift (Run.failAt target.node .badTarget)

mutual

def execute (call : Caller) (s : ScopeId) : Stmt → Traced Flow
  | ⟨node, kind⟩ => located node (executeKind call s kind)

/-- Declarations and definitions are told of when they have succeeded. -/
def executeKind (call : Caller) (s : ScopeId) : StmtKind → Traced Flow
  | .letVar ⟨name, _, value⟩ => do
    let v ← evaluateOption call s value
    lift (Run.define s name v (.variableDefined name))
    tell fun _ => .declared s name
    return .value v
  | .defFun d => do
    lift (Run.checkParameters false d)
    let f : Closure := ⟨d, s, false⟩
    lift (Run.define s d.name (.function (.closure f)) (.functionDefined d.name))
    tell fun h => .defined f h
    return .value (.function (.closure f))
  | .ifElse condition thenBody elseBody => do
    match ← evaluate call s condition with
    | .boolean true => do block call (← lift (Run.child s .empty)) .nil thenBody
    | .boolean false => do block call (← lift (Run.child s .empty)) .nil elseBody
    | v => lift (Run.failAt condition.node (.conditionNotBoolean v.kind))
  | .forEach name iterable body => do
    match ← evaluate call s iterable with
    | .iterable elements =>
      overElements s name (fun inner => block call inner .nil body) elements
    | v => lift (Run.failAt iterable.node (.notIterable v.kind))
  | .returns value => return .returned (← evaluateOption call s value)
  | .expr e => return .value (← evaluate call s e)
  | .assign target value => do
    let v ← evaluate call s value
    assign call s target v
    return .value v

def block (call : Caller) (s : ScopeId) (last : Value) : List Stmt → Traced Flow
  | [] => pure (.value last)
  | stmt :: rest => do
    match ← execute call s stmt with
    | .value v => block call s v rest
    | .returned v => pure (.returned v)

end

/-- A call is told of before anything is checked, and again when its body has come to its end. -/
def enter (call : Caller) (f : Closure) (arguments : List Value) : Traced Value := do
  tell (.called f arguments)
  lift (Run.checkCall f arguments)
  let bound ← lift (Run.child f.captured (.ofList (f.boundNames.zip arguments)))
  let inner ← lift (Run.child bound .empty)
  let flow ← block call inner .nil f.definition.body
  tell fun _ => .completed f flow flow.yielded
  return flow.yielded

def callClosure : Nat → Caller
  | 0 => fun _ _ => throw .tooDeep
  | depth + 1 => enter (callClosure depth)

def statements (call : Caller) (s : ScopeId) (last : Value) : List Stmt → Traced Value
  | [] => pure last
  | stmt :: rest => do
    match ← execute call s stmt with
    | .value v => statements call s v rest
    | .returned _ => lift (Run.failAt stmt.node .returnOutsideFunction)

/-- A whole script, with room for `depth` calls nested in each other. -/
def script (depth : Nat) (s : ScopeId) (p : Script) : Traced Value :=
  statements (callClosure depth) s .nil p.statements

/-- What a step has told, also if it has failed. -/
def told : EStateM.Result Halt Recorded α → List Event
  | .ok _ r => r.events
  | .error _ r => r.events

/-- The events of a step that starts in `w`. -/
def events (x : Traced α) (w : World) : List Event := told (x ⟨w, []⟩)

/-! ## What a trace is a trace of -/

/-- What a step comes to, without what it has told. -/
def forget : EStateM.Result Halt Recorded α → EStateM.Result Halt World α
  | .ok a r => .ok a r.world
  | .error halt r => .error halt r.world

/-- The traced step does what the step does. -/
def Follows (x : Traced α) (y : Run α) : Prop := ∀ r, forget (x r) = y r.world

namespace Follows

variable {x : Traced α} {y : Run α} {f : α → Traced β} {g : α → Run β}

theorem pure (a : α) : Follows (Pure.pure a) (Pure.pure a) := fun _ => rfl

/-- A trace of two steps is one of the first and then one of the second. -/
theorem bind (first : Follows x y) (second : ∀ a, Follows (f a) (g a)) :
    Follows (x >>= f) (y >>= g) := by
  intro r
  have same := first r
  simp only [Bind.bind, EStateM.bind]
  cases traced : x r with
  | ok a r' =>
    rw [traced] at same
    rw [← same]
    exact second a r'
  | error halt r' =>
    rw [traced] at same
    rw [← same]
    rfl

theorem lift (y : Run α) : Follows (Traced.lift y) y := by
  intro r
  unfold Traced.lift
  cases y r.world <;> rfl

theorem lift_bind (y : Run α) (second : ∀ a, Follows (f a) (g a)) :
    Follows (Traced.lift y >>= f) (y >>= g) := bind (lift y) second

/-- To the run itself it is nothing that an event is told. -/
theorem tell_bind {event : Heap Value → Event} {f : Unit → Traced β} {z : Run β}
    (next : Follows (f ()) z) : Follows (tell event >>= f) z := fun _ => next _

theorem located (node : NodeRef) (follows : Follows x y) :
    Follows (Traced.located node x) (Run.located node y) := by
  intro r
  have same := follows r
  unfold Traced.located Run.located
  cases traced : x r with
  | ok a r' =>
    rw [traced] at same
    rw [← same]
    rfl
  | error halt r' =>
    rw [traced] at same
    rw [← same]
    cases halt <;> rfl

end Follows

variable {traced : Caller} {call : Run.Caller}

theorem invoke_follows (calls : ∀ f arguments, Follows (traced f arguments) (call f arguments))
    (f : Callable) (arguments : List Value) :
    Follows (invoke traced f arguments) (Run.invoke call f arguments) := by
  cases f with
  | builtin f => exact .lift _
  | closure f => exact calls f arguments

theorem defineMethods_follows (members : ScopeId) (methods : List Method) :
    Follows (defineMethods members methods) (Run.defineMethods members methods) := by
  induction methods with
  | nil => exact .pure _
  | cons method rest ih =>
    obtain ⟨node, d⟩ := method
    rw [defineMethods, Run.defineMethods]
    exact .bind (.located node (.lift _)) fun _ => ih

theorem overElements_follows {s : ScopeId} {name : String} {x : ScopeId → Traced Flow}
    {y : ScopeId → Run Flow} (body : ∀ inner, Follows (x inner) (y inner)) :
    ∀ elements, Follows (overElements s name x elements) (Run.overElements s name y elements)
  | [] => .pure _
  | v :: rest => by
    rw [overElements, Run.overElements]
    refine .lift_bind _ fun binding => .lift_bind _ fun inner => .bind (body inner) fun flow => ?_
    cases flow with
    | value v => exact overElements_follows body rest
    | returned v => exact .pure _

mutual

theorem evaluate_follows (calls : ∀ f arguments, Follows (traced f arguments) (call f arguments))
    (s : ScopeId) : ∀ e, Follows (evaluate traced s e) (Run.evaluate call s e)
  | ⟨node, kind⟩ => by
    rw [evaluate, Run.evaluate]
    exact .located node (evaluateKind_follows calls s kind)

/-- An expression has nothing to tell except through the calls in it. -/
theorem evaluateKind_follows
    (calls : ∀ f arguments, Follows (traced f arguments) (call f arguments)) (s : ScopeId) :
    ∀ e, Follows (evaluateKind traced s e) (Run.evaluateKind call s e)
  | .literal value => by
    rw [evaluateKind, Run.evaluateKind]
    exact .pure _
  | .group inner => by
    rw [evaluateKind, Run.evaluateKind]
    exact evaluate_follows calls s inner
  | .binary op left right => by
    rw [evaluateKind, Run.evaluateKind]
    refine .bind (evaluate_follows calls s left) fun l => ?_
    cases op.leftFault? l with
    | some cause => exact .lift _
    | none =>
      cases op.decided? l with
      | some v => exact .pure v
      | none => exact .bind (evaluate_follows calls s right) fun r => .lift _
  | .variable name => by
    rw [evaluateKind, Run.evaluateKind]
    refine .lift_bind _ fun found => ?_
    cases found with
    | none => exact .lift _
    | some v => exact .pure v
  | .property receiver name => by
    rw [evaluateKind, Run.evaluateKind]
    refine .bind (evaluate_follows calls s receiver) fun object => .lift_bind _ fun members =>
      .lift_bind _ fun found => ?_
    cases found with
    | none => exact .lift _
    | some v => exact .pure v
  | .call name arguments => by
    rw [evaluateKind, Run.evaluateKind]
    refine .lift_bind _ fun found => ?_
    cases found with
    | none => exact .lift _
    | some v =>
      cases v with
      | function f =>
        exact .bind (evaluateAll_follows calls s arguments) fun vs => invoke_follows calls f vs
      | _ => exact .lift _
  | .invoke receiver name arguments => by
    rw [evaluateKind, Run.evaluateKind]
    refine .bind (evaluate_follows calls s receiver) fun object => .lift_bind _ fun members =>
      .lift_bind _ fun found => ?_
    cases found with
    | none => exact .lift _
    | some v =>
      cases v with
      | function f =>
        exact .bind (evaluateAll_follows calls s arguments) fun vs => invoke_follows calls f _
      | _ => exact .lift _
  | .object name fields methods => by
    rw [evaluateKind, Run.evaluateKind]
    exact .lift_bind _ fun members => .bind (defineFields_follows calls s members fields)
      fun _ => .bind (defineMethods_follows members methods) fun _ => .pure _

theorem evaluateAll_follows
    (calls : ∀ f arguments, Follows (traced f arguments) (call f arguments)) (s : ScopeId) :
    ∀ es, Follows (evaluateAll traced s es) (Run.evaluateAll call s es)
  | [] => by
    rw [evaluateAll, Run.evaluateAll]
    exact .pure _
  | e :: rest => by
    rw [evaluateAll, Run.evaluateAll]
    exact .bind (evaluate_follows calls s e) fun v =>
      .bind (evaluateAll_follows calls s rest) fun vs => .pure _

theorem evaluateOption_follows
    (calls : ∀ f arguments, Follows (traced f arguments) (call f arguments)) (s : ScopeId) :
    ∀ e, Follows (evaluateOption traced s e) (Run.evaluateOption call s e)
  | none => by
    rw [evaluateOption, Run.evaluateOption]
    exact .pure _
  | some e => by
    rw [evaluateOption, Run.evaluateOption]
    exact evaluate_follows calls s e

theorem defineFields_follows
    (calls : ∀ f arguments, Follows (traced f arguments) (call f arguments))
    (s members : ScopeId) :
    ∀ fs, Follows (defineFields traced s members fs) (Run.defineFields call s members fs)
  | [] => by
    rw [defineFields, Run.defineFields]
    exact .pure _
  | ⟨node, ⟨name, ty, value⟩⟩ :: rest => by
    rw [defineFields, Run.defineFields]
    exact .bind (evaluateOption_follows calls s value) fun v =>
      .bind (.located node (.lift _)) fun _ => defineFields_follows calls s members rest

end

theorem assign_follows (calls : ∀ f arguments, Follows (traced f arguments) (call f arguments))
    (s : ScopeId) (target : Expr) (v : Value) :
    Follows (assign traced s target v) (Run.assign call s target v) := by
  obtain ⟨node, kind⟩ := target
  unfold assign Run.assign
  cases kind with
  | «variable» name =>
    refine .lift_bind _ fun found => ?_
    cases found with
    | none => exact .lift _
    | some owner => exact .lift _
  | property receiver name =>
    refine .bind (evaluate_follows calls s receiver) fun object => .lift_bind _ fun members =>
      .lift_bind _ fun found => ?_
    cases found with
    | none => exact .lift _
    | some _ => exact .lift _
  | _ => exact .lift _

mutual

theorem execute_follows (calls : ∀ f arguments, Follows (traced f arguments) (call f arguments))
    (s : ScopeId) : ∀ x, Follows (execute traced s x) (Run.execute call s x)
  | ⟨node, kind⟩ => by
    rw [execute, Run.execute]
    exact .located node (executeKind_follows calls s kind)

/-- A statement does what it does, whatever it tells. -/
theorem executeKind_follows
    (calls : ∀ f arguments, Follows (traced f arguments) (call f arguments)) (s : ScopeId) :
    ∀ x, Follows (executeKind traced s x) (Run.executeKind call s x)
  | .letVar ⟨name, ty, value⟩ => by
    rw [executeKind, Run.executeKind]
    exact .bind (evaluateOption_follows calls s value) fun v => .lift_bind _ fun _ =>
      .tell_bind (.pure _)
  | .defFun d => by
    rw [executeKind, Run.executeKind]
    exact .lift_bind _ fun _ => .lift_bind _ fun _ => .tell_bind (.pure _)
  | .ifElse condition thenBody elseBody => by
    rw [executeKind, Run.executeKind]
    refine .bind (evaluate_follows calls s condition) fun v => ?_
    cases v with
    | boolean b =>
      cases b with
      | true => exact .lift_bind _ fun inner => block_follows calls inner .nil thenBody
      | false => exact .lift_bind _ fun inner => block_follows calls inner .nil elseBody
    | _ => exact .lift _
  | .forEach name iterable body => by
    rw [executeKind, Run.executeKind]
    refine .bind (evaluate_follows calls s iterable) fun v => ?_
    cases v with
    | iterable elements =>
      exact overElements_follows (fun inner => block_follows calls inner .nil body) elements
    | _ => exact .lift _
  | .returns value => by
    rw [executeKind, Run.executeKind]
    exact .bind (evaluateOption_follows calls s value) fun v => .pure _
  | .expr e => by
    rw [executeKind, Run.executeKind]
    exact .bind (evaluate_follows calls s e) fun v => .pure _
  | .assign target value => by
    rw [executeKind, Run.executeKind]
    exact .bind (evaluate_follows calls s value) fun v =>
      .bind (assign_follows calls s target v) fun _ => .pure _

theorem block_follows (calls : ∀ f arguments, Follows (traced f arguments) (call f arguments))
    (s : ScopeId) (last : Value) :
    ∀ xs, Follows (block traced s last xs) (Run.block call s last xs)
  | [] => by
    rw [block, Run.block]
    exact .pure _
  | x :: rest => by
    rw [block, Run.block]
    refine .bind (execute_follows calls s x) fun flow => ?_
    cases flow with
    | value v => exact block_follows calls s v rest
    | returned v => exact .pure _

end


/-- A call that tells of itself is the call. -/
theorem enter_follows (calls : ∀ f arguments, Follows (traced f arguments) (call f arguments))
    (f : Closure) (arguments : List Value) :
    Follows (enter traced f arguments) (Run.enter call f arguments) := by
  rw [Run.enter_eq]
  unfold enter Run.runBody
  refine .tell_bind (.lift_bind _ fun _ => .lift_bind _ fun bound => .lift_bind _ fun inner =>
    .bind (block_follows calls inner .nil f.definition.body) fun flow => .tell_bind ?_)
  cases flow with
  | value v => exact .pure _
  | returned v => exact .pure _

theorem callClosure_follows : ∀ depth f arguments,
    Follows (callClosure depth f arguments) (Run.callClosure depth f arguments)
  | 0, _, _ => fun _ => rfl
  | depth + 1, f, arguments => enter_follows (callClosure_follows depth) f arguments

theorem statements_follows
    (calls : ∀ f arguments, Follows (traced f arguments) (call f arguments)) (s : ScopeId)
    (last : Value) :
    ∀ xs, Follows (statements traced s last xs) (Run.statements call s last xs)
  | [] => .pure _
  | x :: rest => by
    rw [statements, Run.statements]
    refine .bind (execute_follows calls s x) fun flow => ?_
    cases flow with
    | value v => exact statements_follows calls s v rest
    | returned v => exact .lift _

/-- A traced script does what the script does. -/
theorem script_follows (depth : Nat) (s : ScopeId) (p : Script) :
    Follows (script depth s p) (Run.script depth s p) :=
  statements_follows (callClosure_follows depth) s .nil p.statements

end Traced

/-! ## Steps that leave the heap alone -/

/-- From `w` to `w'` lines have been written, and nothing else has happened. -/
structure World.Wrote (w w' : World) : Prop where
  heap : w'.heap = w.heap
  output : w.output.toList <+: w'.output.toList

namespace World.Wrote

theorem refl (w : World) : w.Wrote w := ⟨rfl, List.prefix_rfl⟩

theorem trans {w w' w'' : World} (first : w.Wrote w') (second : w'.Wrote w'') : w.Wrote w'' :=
  ⟨second.heap.trans first.heap, first.output.trans second.output⟩

theorem line (w : World) (line : String) : w.Wrote { w with output := w.output.push line } where
  heap := rfl
  output := by
    rw [Array.toList_push]
    exact List.prefix_append _ _

end World.Wrote

namespace Run

variable {α β : Type}

/-- A step that at most writes lines, whether it fails or not. -/
def Still (y : Run α) : Prop := ∀ w,
  match y w with
  | .ok _ w' => w.Wrote w'
  | .error _ w' => w.Wrote w'

namespace Still

variable {y : Run α} {f : α → Run β} {w w' : World}

theorem of_ok (still : Still y) {a : α} (ok : y w = .ok a w') : w.Wrote w' := by
  have wrote := still w
  rw [ok] at wrote
  exact wrote

theorem of_error (still : Still y) {halt : Halt} (error : y w = .error halt w') : w.Wrote w' := by
  have wrote := still w
  rw [error] at wrote
  exact wrote

theorem pure (a : α) : Still (Pure.pure a : Run α) := .refl

theorem fail (cause : EvalError) : Still (Run.fail cause : Run α) := .refl

theorem failAt (node : NodeRef) (cause : EvalError) : Still (Run.failAt node cause : Run α) :=
  .refl

theorem fail_bind (cause : EvalError) : Still (Run.fail cause >>= f) := .refl

/-- Lines of the first step come before those of the second. -/
theorem bind (first : Still y) (second : ∀ a, Still (f a)) : Still (y >>= f) := by
  intro w
  simp only [Bind.bind, EStateM.bind]
  cases result : y w with
  | error halt w' => exact first.of_error result
  | ok a w' =>
    have wrote := first.of_ok result
    dsimp only
    cases next : f a w' with
    | ok b w'' => exact wrote.trans ((second a).of_ok next)
    | error halt w'' => exact wrote.trans ((second a).of_error next)

theorem read_bind {question : Heap Value → α} (next : ∀ a, Still (f a)) :
    Still (Run.read question >>= f) := fun w => next (question w.heap) w

theorem located {node : NodeRef} (still : Still y) : Still (Run.located node y) := by
  intro w
  unfold Run.located
  cases result : y w with
  | ok a w' => exact still.of_ok result
  | error halt w' =>
    have same := still.of_error result
    cases halt <;> exact same

theorem rule (result : Heap Value → Except EvalError α) : Still (Run.rule result) := by
  intro w
  unfold Run.rule
  cases result w.heap <;> exact .refl w

theorem membersOf (node : NodeRef) (v : Value) : Still (Run.membersOf node v) := by
  cases v with
  | object name members => exact pure members
  | _ => exact failAt _ _

theorem checkParameters (isMethod : Bool) (d : Definition) :
    Still (Run.checkParameters isMethod d) := by
  unfold Run.checkParameters
  split
  · exact fail _
  · exact pure ()

/-- The checks of a call write nothing. -/
theorem checkCall (f : Closure) (arguments : List Value) : Still (Run.checkCall f arguments) := by
  unfold Run.checkCall
  dsimp only
  split
  · exact fail_bind _
  · split
    · exact fail_bind _
    · split
      · exact checkParameters true _
      · exact pure ()

/-- Builtins write a line, or nothing. -/
theorem builtin (f : Builtin) (arguments : List Value) : Still (f.apply arguments) := by
  unfold Builtin.apply
  split
  · exact fun w => .line w _
  · exact fun w => .line w _
  · exact fun w => .line w _
  all_goals exact .refl

end Still

end Run

/-! ## What traced steps end with -/

namespace Traced

variable {α β : Type}

/-- From the heap `h` on, with these events before it, the step ends as `Q` says, and where it is
stopped, `E` holds. Lines that are written do not matter to it. -/
def Ends (E : Heap Value → List Event → Prop) (x : Traced α) (h : Heap Value)
    (events : List Event) (Q : α → Heap Value → List Event → Prop) : Prop :=
  ∀ output,
    match x ⟨⟨h, output⟩, events⟩ with
    | .ok a r => Q a r.world.heap r.events
    | .error _ r => E r.world.heap r.events

namespace Ends

variable {E : Heap Value → List Event → Prop} {x : Traced α} {h : Heap Value}
  {events : List Event} {f : α → Traced β} {Q R : α → Heap Value → List Event → Prop}
  {S : β → Heap Value → List Event → Prop}

theorem mono (ends : Ends E x h events Q) (imp : ∀ a h' events', Q a h' events' → R a h' events') :
    Ends E x h events R := by
  intro output
  have after := ends output
  split at after
  · exact imp _ _ _ after
  · exact after

/-- The second step starts from the heap and the events that the first one has left. -/
theorem bind (first : Ends E x h events Q)
    (second : ∀ a h' events', Q a h' events' → Ends E (f a) h' events' S) :
    Ends E (x >>= f) h events S := by
  intro output
  have after := first output
  simp only [Bind.bind, EStateM.bind]
  cases result : x ⟨⟨h, output⟩, events⟩ with
  | ok a r =>
    rw [result] at after
    exact second a _ _ after r.world.output
  | error halt r =>
    rw [result] at after
    exact after

theorem pure {a : α} (post : Q a h events) : Ends E (Pure.pure a : Traced α) h events Q :=
  fun _ => post

theorem tooDeep (stopped : E h events) : Ends E (throw .tooDeep : Traced α) h events Q :=
  fun _ => stopped

theorem fail {cause : EvalError} (stopped : E h events) :
    Ends E (Traced.lift (Run.fail cause) : Traced α) h events Q := fun _ => stopped

theorem failAt {node : NodeRef} {cause : EvalError} (stopped : E h events) :
    Ends E (Traced.lift (Run.failAt node cause) : Traced α) h events Q := fun _ => stopped

theorem located {node : NodeRef} (ends : Ends E x h events Q) :
    Ends E (Traced.located node x) h events Q := by
  intro output
  have after := ends output
  unfold Traced.located
  cases result : x ⟨⟨h, output⟩, events⟩ with
  | ok a r =>
    rw [result] at after
    exact after
  | error halt r =>
    rw [result] at after
    cases halt <;> exact after

/-- A step that leaves the heap alone, and what is known of its result. -/
theorem lift {y : Run α} (still : y.Still)
    (post : ∀ a output w, y ⟨h, output⟩ = .ok a w → Q a h events) (stopped : E h events) :
    Ends E (Traced.lift y) h events Q := by
  intro output
  unfold Traced.lift
  cases result : y ⟨h, output⟩ with
  | ok a w =>
    have same : w.heap = h := (still.of_ok result).heap
    show Q a w.heap events
    rw [same]
    exact post a output w result
  | error halt w =>
    have same : w.heap = h := (still.of_error result).heap
    show E w.heap events
    rw [same]
    exact stopped

/-- A step that leaves the heap alone has told nothing either. -/
theorem lift_bind {y : Run α} (still : y.Still) (stopped : E h events)
    (next : ∀ a, Ends E (f a) h events S) : Ends E (Traced.lift y >>= f) h events S := by
  refine bind (Q := fun _ h' events' => h' = h ∧ events' = events)
    (lift still (fun _ _ _ _ => ⟨rfl, rfl⟩) stopped) ?_
  rintro a _ _ ⟨rfl, rfl⟩
  exact next a

theorem read_bind {question : Heap Value → α} (next : Ends E (f (question h)) h events S) :
    Ends E (Traced.lift (Run.read question) >>= f) h events S := next

/-- A step that gives the world another heap. -/
theorem child_bind {s : ScopeId} {b : Bindings Value} {f : ScopeId → Traced β}
    (next : Ends E (f h.size) (h.child s b).2 events S) :
    Ends E (Traced.lift (Run.child s b) >>= f) h events S := by
  intro output
  have after := next output
  rw [← Heap.child_fst h s b] at after
  exact after

theorem root_bind {f : ScopeId → Traced β} (next : Ends E (f h.size) (h.root .empty).2 events S) :
    Ends E (Traced.lift Run.root >>= f) h events S := next

theorem put {s : ScopeId} {name : String} {v : Value} {Q : Unit → Heap Value → List Event → Prop}
    (post : Q () (h.put s name v) events) : Ends E (Traced.lift (Run.put s name v)) h events Q :=
  fun _ => post

/-- A definition that may find its name taken. -/
theorem define {s : ScopeId} {name : String} {v : Value} {cause : EvalError}
    {Q : Unit → Heap Value → List Event → Prop} (stopped : E h events)
    (post : name ∉ (h.bindings s).names → Q () (h.put s name v) events) :
    Ends E (Traced.lift (Run.define s name v cause)) h events Q := by
  intro output
  unfold Traced.lift
  rw [Run.define_eq]
  by_cases bound : h.binds s name = true
  · rw [if_pos bound]
    exact stopped
  · rw [if_neg bound]
    rw [Heap.binds_iff] at bound
    exact post bound

theorem tell_bind {event : Heap Value → Event} {f : Unit → Traced β}
    (next : Ends E (f ()) h (events ++ [event h]) S) : Ends E (tell event >>= f) h events S := next

/-- A definition that is told of. -/
theorem declare_bind {s : ScopeId} {name : String} {v : Value} {cause : EvalError}
    {event : Heap Value → Event} {f : Unit → Traced β} (stopped : E h events)
    (next : name ∉ (h.bindings s).names →
      Ends E (f ()) (h.put s name v) (events ++ [event (h.put s name v)]) S) :
    Ends E (Traced.lift (Run.define s name v cause) >>= fun _ => tell event >>= f) h events S := by
  refine bind (Q := fun _ h' events' =>
      name ∉ (h.bindings s).names ∧ h' = h.put s name v ∧ events' = events)
    (define stopped fun unbound => ⟨unbound, rfl, rfl⟩) ?_
  rintro _ _ _ ⟨unbound, rfl, rfl⟩
  exact tell_bind (next unbound)

end Ends

/-! ### Invariants -/

/-- From the heap `h` on, the step keeps `I`, also where it is stopped, and if it comes to its end,
then as `Q` says. -/
def Keeps (I : Heap Value → List Event → Prop) (x : Traced α) (h : Heap Value)
    (Q : α → Heap Value → Prop) : Prop :=
  ∀ events, I h events → Ends I x h events fun a h' events' => I h' events' ∧ Q a h'

namespace Keeps

variable {I : Heap Value → List Event → Prop} {x : Traced α} {h : Heap Value} {f : α → Traced β}
  {Q R : α → Heap Value → Prop} {S : β → Heap Value → Prop}

theorem mono (keeps : Keeps I x h Q) (imp : ∀ a h', Q a h' → R a h') : Keeps I x h R :=
  fun events before => (keeps events before).mono fun a h' _ after =>
    ⟨after.1, imp a h' after.2⟩

/-- An invariant that both steps keep. -/
theorem bind (first : Keeps I x h Q) (second : ∀ a h', Q a h' → Keeps I (f a) h' S) :
    Keeps I (x >>= f) h S :=
  fun events before => (first events before).bind fun a h' events' after =>
    second a h' after.2 events' after.1

theorem pure {a : α} (post : Q a h) : Keeps I (Pure.pure a : Traced α) h Q :=
  fun _ before => .pure ⟨before, post⟩

theorem tooDeep : Keeps I (throw .tooDeep : Traced α) h Q := fun _ before => .tooDeep before

theorem fail {cause : EvalError} : Keeps I (Traced.lift (Run.fail cause) : Traced α) h Q :=
  fun _ before => .fail before

theorem failAt {node : NodeRef} {cause : EvalError} :
    Keeps I (Traced.lift (Run.failAt node cause) : Traced α) h Q := fun _ before => .failAt before

theorem failAt_bind {node : NodeRef} {cause : EvalError} :
    Keeps I (Traced.lift (Run.failAt node cause) >>= f) h S :=
  bind (Q := fun _ _ => False) failAt fun _ _ => False.elim

theorem located {node : NodeRef} (keeps : Keeps I x h Q) :
    Keeps I (Traced.located node x) h Q := fun events before => .located (keeps events before)

theorem lift {y : Run α} (still : y.Still)
    (post : ∀ a output w, y ⟨h, output⟩ = .ok a w → Q a h) : Keeps I (Traced.lift y) h Q :=
  fun _ before => .lift still (fun a output w ok => ⟨before, post a output w ok⟩) before

theorem lift_bind {y : Run α} (still : y.Still) (next : ∀ a, Keeps I (f a) h S) :
    Keeps I (Traced.lift y >>= f) h S :=
  fun events before => .lift_bind still before fun a => next a events before

theorem read_bind {question : Heap Value → α} (next : Keeps I (f (question h)) h S) :
    Keeps I (Traced.lift (Run.read question) >>= f) h S := next

theorem membersOf_bind {node : NodeRef} {name : Option String} {members : ScopeId}
    {f : ScopeId → Traced β} (next : Keeps I (f members) h S) :
    Keeps I (Traced.lift (Run.membersOf node (.object name members)) >>= f) h S := next

theorem child_bind {s : ScopeId} {b : Bindings Value} {f : ScopeId → Traced β}
    (kept : ∀ events, I h events → I (h.child s b).2 events)
    (next : Keeps I (f h.size) (h.child s b).2 S) :
    Keeps I (Traced.lift (Run.child s b) >>= f) h S :=
  fun events before => .child_bind (next events (kept events before))

theorem root_bind {f : ScopeId → Traced β}
    (kept : ∀ events, I h events → I (h.root .empty).2 events)
    (next : Keeps I (f h.size) (h.root .empty).2 S) :
    Keeps I (Traced.lift Run.root >>= f) h S :=
  fun events before => .root_bind (next events (kept events before))

theorem put {s : ScopeId} {name : String} {v : Value} {Q : Unit → Heap Value → Prop}
    (kept : ∀ events, I h events → I (h.put s name v) events) (post : Q () (h.put s name v)) :
    Keeps I (Traced.lift (Run.put s name v)) h Q :=
  fun events before => .put ⟨kept events before, post⟩

theorem define {s : ScopeId} {name : String} {v : Value} {cause : EvalError}
    {Q : Unit → Heap Value → Prop} (kept : ∀ events, I h events → I (h.put s name v) events)
    (post : Q () (h.put s name v)) : Keeps I (Traced.lift (Run.define s name v cause)) h Q :=
  fun events before => .define before fun _ => ⟨kept events before, post⟩

theorem declare_bind {s : ScopeId} {name : String} {v : Value} {cause : EvalError}
    {event : Heap Value → Event} {f : Unit → Traced β}
    (kept : ∀ events, name ∉ (h.bindings s).names → I h events →
      I (h.put s name v) (events ++ [event (h.put s name v)]))
    (next : name ∉ (h.bindings s).names → Keeps I (f ()) (h.put s name v) S) :
    Keeps I (Traced.lift (Run.define s name v cause) >>= fun _ => tell event >>= f) h S :=
  fun events before => .declare_bind before fun unbound =>
    next unbound _ (kept events unbound before)

/-- The invariant holds where a step starts. -/
theorem of_invariant (keeps : ∀ events, I h events → Keeps I x h Q) : Keeps I x h Q :=
  fun events before => keeps events before events before

theorem tell_bind {event : Heap Value → Event} {f : Unit → Traced β}
    (kept : ∀ events, I h events → I h (events ++ [event h])) (next : Keeps I (f ()) h S) :
    Keeps I (tell event >>= f) h S :=
  fun events before => .tell_bind (next _ (kept events before))

end Keeps

/-- What a step has told, from its start on, is in accordance with what it ends with. -/
theorem Ends.exists_events {E : Heap Value → List Event → Prop} {x : Traced α} {h : Heap Value}
    {Q : α → Heap Value → List Event → Prop} (ends : Ends E x h [] Q)
    (imp : ∀ a h' events', Q a h' events' → E h' events') (output : Array String) :
    ∃ h', E h' (x.events ⟨h, output⟩) := by
  have after := ends output
  unfold Traced.events Traced.told
  split at after
  · exact ⟨_, imp _ _ _ after⟩
  · exact ⟨_, after⟩

/-- The events of a whole run satisfy the invariant, with the heap that the run has ended in. -/
theorem Keeps.exists_events {I : Heap Value → List Event → Prop} {x : Traced α} {h : Heap Value}
    {Q : α → Heap Value → Prop} (keeps : Keeps I x h Q) (start : I h []) (output : Array String) :
    ∃ h', I h' (x.events ⟨h, output⟩) :=
  (keeps [] start).exists_events (fun _ _ _ after => after.1) output

end Traced

/-! ## Runs from the prelude -/

/-- A run of a script on its own, with room for `depth` calls nested in each other. -/
def Script.runWithin (fixtures : Bool) (depth : Nat) (p : Script) :
    EStateM.Result Halt World Value :=
  let s := RunSession.start fixtures
  Run.script depth s.scope p ⟨s.heap, #[]⟩

/-- The same run, with the events beside it. -/
def Script.tracedWithin (fixtures : Bool) (depth : Nat) (p : Script) :
    EStateM.Result Halt Recorded Value :=
  let s := RunSession.start fixtures
  Traced.script depth s.scope p ⟨⟨s.heap, #[]⟩, []⟩

/-- The events of this run. -/
def Script.trace (fixtures : Bool) (depth : Nat) (p : Script) : List Event :=
  Traced.told (p.tracedWithin fixtures depth)

/-- With the events left out, it is the run. -/
theorem Script.forget_tracedWithin (fixtures : Bool) (depth : Nat) (p : Script) :
    Traced.forget (p.tracedWithin fixtures depth) = p.runWithin fixtures depth :=
  Traced.script_follows depth _ p _

end GradualScript
