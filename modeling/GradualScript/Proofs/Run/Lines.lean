/-
# GradualScript.Proofs.Run.Lines -- runs do not read the lines that were written

The world of a run holds the lines that have been written, and no step looks at them: lines are only
added at the end. A run therefore does the same whatever has been written before it, and writes the
same lines after that (`script_blind`). This is what makes the output of a run a matter of the run
alone, and the output of several runs the outputs one after the other.
-/

import GradualScript.Proofs.Run.Trace

namespace GradualScript

/-- The world with other lines written before its own. -/
def World.behind (lines : Array String) (w : World) : World :=
  { w with output := lines ++ w.output }

/-- A world is one without lines, behind its own. -/
theorem World.behind_output (w : World) : World.behind w.output ⟨w.heap, #[]⟩ = w := by
  rw [World.behind, Array.append_empty]

namespace Run

variable {α β : Type}

/-- The end of a step, with other lines written before. -/
def behind (lines : Array String) : EStateM.Result Halt World α → EStateM.Result Halt World α
  | .ok a w => .ok a (w.behind lines)
  | .error halt w => .error halt (w.behind lines)

/-- The step does the same whatever lines have been written before it. -/
def Blind (x : Run α) : Prop := ∀ lines w, x (w.behind lines) = behind lines (x w)

/-! ## Rules -/

namespace Blind

variable {x : Run α} {f : α → Run β}

theorem pure (a : α) : Blind (Pure.pure a : Run α) := fun _ _ => rfl

theorem tooDeep : Blind (throw .tooDeep : Run α) := fun _ _ => rfl

theorem fail (cause : EvalError) : Blind (Run.fail cause : Run α) := fun _ _ => rfl

theorem failAt (node : NodeRef) (cause : EvalError) : Blind (Run.failAt node cause : Run α) :=
  fun _ _ => rfl

/-- What a step finds in the heap does not depend on lines. -/
theorem read (question : Heap Value → α) : Blind (Run.read question) := fun _ _ => rfl

theorem child (s : ScopeId) (b : Bindings Value) : Blind (Run.child s b) := fun _ _ => rfl

theorem root : Blind Run.root := fun _ _ => rfl

theorem put (s : ScopeId) (name : String) (v : Value) : Blind (Run.put s name v) := fun _ _ => rfl

/-- A line comes after the lines that are there already, whatever they are. -/
theorem write (line : String) : Blind (Run.write line) := by
  intro lines w
  simp only [Run.write, behind, World.behind, Array.append_push]

/-- What the first step has written comes before what the second one writes. -/
theorem bind (first : Blind x) (second : ∀ a, Blind (f a)) : Blind (x >>= f) := by
  intro lines w
  simp only [Bind.bind, EStateM.bind, first lines w]
  cases x w with
  | ok a w' => exact second a lines w'
  | error halt w' => rfl

/-- Where a step fails, what would follow does not matter. -/
theorem fail_bind (cause : EvalError) : Blind (Run.fail cause >>= f) := fun _ _ => rfl

theorem located {node : NodeRef} (step : Blind x) : Blind (Run.located node x) := by
  intro lines w
  simp only [Run.located, step lines w]
  cases x w with
  | ok a w' => rfl
  | error halt w' => cases halt <;> rfl

/-- The rules of operators do not read lines. -/
theorem rule (result : Heap Value → Except EvalError α) : Blind (Run.rule result) := by
  intro lines w
  simp only [Run.rule, World.behind]
  cases result w.heap <;> rfl

/-- A definition does not read lines. -/
theorem define (s : ScopeId) (name : String) (v : Value) (cause : EvalError) :
    Blind (Run.define s name v cause) := by
  refine .bind (.read _) fun bound => ?_
  split
  · exact fail cause
  · exact put s name v

theorem membersOf (node : NodeRef) (v : Value) : Blind (Run.membersOf node v) := by
  cases v with
  | object name members => exact pure members
  | _ => exact failAt _ _

theorem checkParameters (isMethod : Bool) (d : Definition) :
    Blind (Run.checkParameters isMethod d) := by
  unfold Run.checkParameters
  split
  · exact fail _
  · exact pure ()

theorem checkCall (f : Closure) (arguments : List Value) :
    Blind (Run.checkCall f arguments) := by
  unfold Run.checkCall
  dsimp only
  -- A check that fails is the last one, so the checks are taken in their order.
  split
  · exact fail_bind _
  · split
    · exact fail_bind _
    · split
      · exact checkParameters true _
      · exact pure ()

/-- Builtins print a value, and what is printed depends on the value and on the scopes. -/
theorem builtin (f : Builtin) (arguments : List Value) : Blind (f.apply arguments) := by
  unfold Builtin.apply
  split
  · exact .bind (.read _) fun _ => .bind (.write _) fun _ => pure _
  · exact .bind (.read _) fun _ => .bind (.write _) fun _ => pure _
  · exact .bind (.read _) fun _ => .bind (.write _) fun _ => pure _
  all_goals first
    | exact pure _
    | exact fail _

end Blind

/-! ## The walk -/

variable {call : Caller}

/-- Of the builtins, three write a line, and none reads one. -/
theorem invoke_blind (calls : ∀ f arguments, Blind (call f arguments)) (f : Callable)
    (arguments : List Value) : Blind (invoke call f arguments) := by
  cases f with
  | builtin f => exact .builtin f arguments
  | closure f => exact calls f arguments

theorem defineMethods_blind (members : ScopeId) (methods : List Method) :
    Blind (defineMethods members methods) := by
  induction methods with
  | nil => exact .pure ()
  | cons method rest ih =>
    obtain ⟨node, d⟩ := method
    exact .bind (.located (.define _ _ _ _)) fun _ => ih

/-- The rounds of a loop write one after the other. -/
theorem overElements_blind {s : ScopeId} {name : String} {body : ScopeId → Run Flow}
    (rounds : ∀ inner, Blind (body inner)) : ∀ vs, Blind (overElements s name body vs)
  | [] => .pure _
  | v :: rest => by
    refine .bind (.child _ _) fun t => .bind (.child _ _) fun inner => .bind (rounds inner) ?_
    rintro (v | v)
    · exact overElements_blind rounds rest
    · exact .pure _

mutual

theorem evaluate_blind (calls : ∀ f arguments, Blind (call f arguments)) (s : ScopeId) :
    ∀ e, Blind (evaluate call s e)
  | ⟨_, kind⟩ => .located (evaluateKind_blind calls s kind)

/-- Expressions write through the calls in them. -/
theorem evaluateKind_blind (calls : ∀ f arguments, Blind (call f arguments)) (s : ScopeId) :
    ∀ e, Blind (evaluateKind call s e)
  | .literal value => .pure _
  | .group inner => evaluate_blind calls s inner
  | .binary op left right => by
    refine .bind (evaluate_blind calls s left) fun l => ?_
    split
    · exact .failAt _ _
    · split
      · exact .pure _
      · exact .bind (evaluate_blind calls s right) fun r => .located (.rule _)
  | .variable name => by
    refine .bind (.read _) fun found => ?_
    cases found with
    | some v => exact .pure v
    | none => exact .fail _
  | .property receiver name => by
    refine .bind (evaluate_blind calls s receiver) fun v => .bind (.membersOf _ v) fun members =>
      .bind (.read _) fun found => ?_
    cases found with
    | some v => exact .pure v
    | none => exact .fail _
  | .call name arguments => by
    refine .bind (.read _) fun found => ?_
    split
    · exact .bind (evaluateAll_blind calls s arguments) fun vs => invoke_blind calls _ vs
    · exact .fail _
    · exact .fail _
  | .invoke receiver name arguments => by
    refine .bind (evaluate_blind calls s receiver) fun object =>
      .bind (.membersOf _ object) fun members => .bind (.read _) fun found => ?_
    split
    · exact .bind (evaluateAll_blind calls s arguments) fun vs => invoke_blind calls _ _
    · exact .fail _
    · exact .fail _
  | .object name fields methods =>
    .bind .root fun members => .bind (defineFields_blind calls s members fields) fun _ =>
      .bind (defineMethods_blind members methods) fun _ => .pure _

theorem evaluateAll_blind (calls : ∀ f arguments, Blind (call f arguments)) (s : ScopeId) :
    ∀ es, Blind (evaluateAll call s es)
  | [] => .pure _
  | e :: rest => .bind (evaluate_blind calls s e) fun _ =>
      .bind (evaluateAll_blind calls s rest) fun _ => .pure _

theorem evaluateOption_blind (calls : ∀ f arguments, Blind (call f arguments)) (s : ScopeId) :
    ∀ e, Blind (evaluateOption call s e)
  | none => .pure _
  | some e => evaluate_blind calls s e

theorem defineFields_blind (calls : ∀ f arguments, Blind (call f arguments))
    (s members : ScopeId) : ∀ fs, Blind (defineFields call s members fs)
  | [] => .pure _
  | ⟨_, ⟨_, _, value⟩⟩ :: rest => .bind (evaluateOption_blind calls s value) fun _ =>
      .bind (.located (.define _ _ _ _)) fun _ => defineFields_blind calls s members rest

end

theorem assign_blind (calls : ∀ f arguments, Blind (call f arguments)) (s : ScopeId)
    (target : Expr) (v : Value) : Blind (assign call s target v) := by
  unfold assign
  split
  · refine .bind (.read _) fun owner => ?_
    cases owner with
    | some t => exact .put _ _ _
    | none => exact .failAt _ _
  · refine .bind (evaluate_blind calls s _) fun object => .bind (.membersOf _ object) fun members =>
      .bind (.read _) fun found => ?_
    cases found with
    | some _ => exact .put _ _ _
    | none => exact .failAt _ _
  · exact .failAt _ _

mutual

theorem execute_blind (calls : ∀ f arguments, Blind (call f arguments)) (s : ScopeId) :
    ∀ x, Blind (execute call s x)
  | ⟨_, kind⟩ => .located (executeKind_blind calls s kind)

/-- Statements write through the expressions and blocks in them. -/
theorem executeKind_blind (calls : ∀ f arguments, Blind (call f arguments)) (s : ScopeId) :
    ∀ x, Blind (executeKind call s x)
  | .letVar ⟨_, _, value⟩ => .bind (evaluateOption_blind calls s value) fun _ =>
      .bind (.define _ _ _ _) fun _ => .pure _
  | .defFun d => .bind (.checkParameters _ _) fun _ => .bind (.define _ _ _ _) fun _ => .pure _
  | .ifElse condition thenBody elseBody => by
    refine .bind (evaluate_blind calls s condition) fun v => ?_
    split
    · exact .bind (.child _ _) fun t => block_blind calls t .nil thenBody
    · exact .bind (.child _ _) fun t => block_blind calls t .nil elseBody
    · exact .failAt _ _
  | .forEach name iterable body => by
    refine .bind (evaluate_blind calls s iterable) fun v => ?_
    split
    · exact overElements_blind (fun inner => block_blind calls inner .nil body) _
    · exact .failAt _ _
  | .returns value => .bind (evaluateOption_blind calls s value) fun _ => .pure _
  | .expr e => .bind (evaluate_blind calls s e) fun _ => .pure _
  | .assign target value => .bind (evaluate_blind calls s value) fun v =>
      .bind (assign_blind calls s target v) fun _ => .pure _

theorem block_blind (calls : ∀ f arguments, Blind (call f arguments)) (s : ScopeId)
    (last : Value) : ∀ xs, Blind (block call s last xs)
  | [] => .pure _
  | x :: rest => by
    refine .bind (execute_blind calls s x) ?_
    rintro (v | v)
    · exact block_blind calls s v rest
    · exact .pure _

end

/-- By induction on the room for calls: a body is walked with the calls that have less of it. -/
theorem callClosure_blind : ∀ depth f arguments, Blind (callClosure depth f arguments)
  | 0, _, _ => .tooDeep
  | depth + 1, f, arguments => by
    show Blind (enter (callClosure depth) f arguments)
    rw [enter_eq]
    refine .bind (.checkCall f arguments) fun _ => .bind (.child _ _) fun bound =>
      .bind (.child _ _) fun inner => .bind (block_blind (callClosure_blind depth) inner _ _) ?_
    rintro (v | v)
    · exact .pure _
    · exact .pure _

theorem statements_blind (calls : ∀ f arguments, Blind (call f arguments)) (s : ScopeId)
    (last : Value) : ∀ xs, Blind (statements call s last xs)
  | [] => .pure _
  | x :: rest => by
    refine .bind (execute_blind calls s x) ?_
    rintro (v | v)
    · exact statements_blind calls s v rest
    · exact .failAt _ _

/-- A script does the same whatever lines have been written before it. -/
theorem script_blind (depth : Nat) (s : ScopeId) (p : Script) : Blind (script depth s p) :=
  statements_blind (callClosure_blind depth) s .nil p.statements

end Run

end GradualScript
