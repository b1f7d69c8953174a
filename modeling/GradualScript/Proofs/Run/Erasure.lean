/-
# GradualScript.Proofs.Run.Erasure -- what a run does not look at

The evaluator reads no annotation, and nodes only to attribute faults to them. So scripts that are
alike are run in step: this is proved along the evaluator's own recursion, for every expression and
statement, with the calls as a hypothesis, and then for calls by induction on how deeply they may be
nested. A closure that is called may have been made long before, by the run of another part of the
script. That its definition is alike to the one in the other run is an invariant of the two heaps.

A statement goes on to the next one unless it is a `RETURN`, and returns only if it contains one
(`Flow.Alike`). The first is why nothing depends on what stands after a `RETURN`, the second why a
script without a `RETURN` outside of its definitions never stops for one.
-/

import GradualScript.Proofs.Run.InStep
import GradualScript.Proofs.Run.Names
import GradualScript.Proofs.Run.Trace
import Mathlib.Data.List.Zip

namespace GradualScript

variable {L : Likeness}

/-- Statements that ended alike: gone on to the next one only if `goes`, returned only if
`returns`. -/
inductive Flow.Alike (L : Likeness) (goes returns : Prop) : Flow → Flow → Prop
  | value {v u : Value} : goes → v.Alike L u → Flow.Alike L goes returns (.value v) (.value u)
  | returned {v u : Value} : returns → v.Alike L u →
      Flow.Alike L goes returns (.returned v) (.returned u)

theorem Flow.Alike.imp {P P' Q Q' : Prop} {a b : Flow} (goes : P → P') (returns : Q → Q')
    (alike : Flow.Alike L P Q a b) : Flow.Alike L P' Q' a b := by
  cases alike with
  | value may value => exact .value (goes may) value
  | returned may value => exact .returned (returns may) value

/-! ## Builtins -/

namespace Builtin

theorem alike_integers (start stop : Int) :
    (Value.iterable (integers start stop)).Alike L (.iterable (integers start stop)) := by
  refine .iterable (List.forall₂_same.mpr fun v mem => ?_)
  obtain ⟨k, _, rfl⟩ := List.mem_map.mp mem
  exact .plain trivial

theorem apply_range_of_not_plain {v u : Value} (unfit : ¬v.IsPlain ∨ ¬u.IsPlain) :
    apply .range [v, u] = Run.fail (.rangeArguments v.kind u.kind) := by
  cases v <;> cases u <;> first | rfl | exact (unfit.elim (· trivial) (· trivial)).elim

/-- The range of two integers is the same in both runs; other arguments are of one kind in both, and
are refused with the same complaint. -/
theorem range_inStep {v v' u u' : Value} (first : v.Alike L u) (second : v'.Alike L u') :
    Run.InStep L (Value.Alike L) (apply .range [v, v']) (apply .range [u, u']) := by
  -- A value that is not plain is no bound of a range, and the message only tells its kind.
  have refused (unfit : ¬v.IsPlain ∨ ¬v'.IsPlain) (unfit' : ¬u.IsPlain ∨ ¬u'.IsPlain) :
      Run.InStep L (Value.Alike L) (apply .range [v, v']) (apply .range [u, u']) := by
    rw [apply_range_of_not_plain unfit, apply_range_of_not_plain unfit', first.kind_eq,
      second.kind_eq]
    exact .fail id
  rcases first.eq_or_not_plain with ⟨rfl, plain⟩ | ⟨odd, odd'⟩
  · rcases second.eq_or_not_plain with ⟨rfl, plain'⟩ | ⟨odd, odd'⟩
    · cases u <;> cases u' <;> first | exact .pure (alike_integers _ _) | exact .fail id
    · exact refused (Or.inr odd) (Or.inr odd')
  · exact refused (Or.inl odd) (Or.inl odd')

/-- Builtins print what is alike as the same text. -/
theorem apply_inStep (f : Builtin) {vs us : List Value} (all : Value.AllAlike L vs us) :
    Run.InStep L (Value.Alike L) (f.apply vs) (f.apply us) := by
  cases all with
  | nil => cases f <;> first | exact .pure .nil | exact .fail id
  | @cons v u vs us first all =>
    cases all with
    | nil =>
      have displayed : Run.InStep L Eq (Run.read fun h => v.display h)
          (Run.read fun h => u.display h) :=
        .read fun h k heaps => (Value.display_alike heaps first).symm
      have shown : Run.InStep L Eq (Run.read fun h => (v.layout h).compact)
          (Run.read fun h => (u.layout h).compact) :=
        .read fun h k heaps => congrArg Text.Layout.compact (Value.layout_alike heaps first).symm
      cases f with
      | log => exact .bind_eq displayed fun line => .bind_eq (.write line) fun _ => .pure first
      | print =>
        exact .bind_eq displayed fun line => .bind_eq (.write line) fun _ => .pure .nil
      | debug =>
        exact .bind_eq shown fun line => .bind_eq (.write line) fun _ => .pure .nil
      | functionAny | functionString => exact .pure first
      | method | inheritedMethod => exact .pure .nil
      | range =>
        simp only [apply, List.length_cons]
        exact .fail id
      | _ => exact .fail id
    | @cons v' u' vs us second all =>
      cases all with
      | nil =>
        cases f with
        | range => exact range_inStep first second
        | methodAny | methodString => exact .pure second
        | _ => exact .fail id
      | cons third all =>
        have count := all.length_eq
        cases f <;> (simp only [apply, List.length_cons, count]; exact .fail id)

end Builtin

namespace Run

/-! ## Expressions -/

/-- Calls of closures that are alike, with arguments that are alike, are in step. -/
def Caller.Alike (L : Likeness) (call call' : Caller) : Prop :=
  ∀ ⦃f g : Closure⦄, f.Alike L g → ∀ ⦃vs us : List Value⦄, Value.AllAlike L vs us →
    InStep L (Value.Alike L) (call f vs) (call' g us)

variable {call call' : Caller}

theorem membersOf_inStep {n m : NodeRef} (nodes : L.nodes n m) {v u : Value}
    (alike : v.Alike L u) : InStep L Eq (membersOf n v) (membersOf m u) := by
  cases alike with
  | plain data => cases v <;> first | exact data.elim | exact .failAt nodes False.elim
  | object name members => exact .pure rfl
  | _ => exact .failAt nodes False.elim

/-- Callables that are alike are the same builtin, or closures that are alike. -/
theorem invoke_inStep (calls : Caller.Alike L call call') {f g : Callable}
    (callee : (Value.function f).Alike L (.function g)) {vs us : List Value}
    (all : Value.AllAlike L vs us) :
    InStep L (Value.Alike L) (invoke call f vs) (invoke call' g us) := by
  cases callee with
  | plain data => exact data.elim
  | builtin f => exact f.apply_inStep all
  | closure alike => exact calls alike all

theorem defineMethods_inStep (members : ScopeId) : ∀ {ms ms' : List Method},
    Method.AllAlike L ms ms' →
    InStep L Eq (defineMethods members ms) (defineMethods members ms')
  | [], ms', alike => by
    rw [Method.AllAlike] at alike
    subst alike
    exact .pure rfl
  | ⟨node, definition⟩ :: rest, ms', alike => by
    rw [Method.AllAlike] at alike
    obtain ⟨⟨node', definition'⟩, rest', rfl, nodes, first, following⟩ := alike
    rw [defineMethods, defineMethods, first.name_eq]
    exact .bind_eq (.located nodes (.define (.closure ⟨first, rfl, rfl⟩) id)) fun _ =>
      defineMethods_inStep members following

/-! ### One lemma for each kind of expression -/

section Kinds

variable {s : ScopeId}

/-- Operators see plain data, which is the same in both runs, or else only the kind of a value. -/
theorem binary_inStep {op : BinaryOp} {left left' right right' : Expr}
    (leftAlike : left.Alike L left') (rightAlike : right.Alike L right')
    (leftInStep : InStep L (Value.Alike L) (evaluate call s left) (evaluate call' s left'))
    (rightInStep : InStep L (Value.Alike L) (evaluate call s right) (evaluate call' s right')) :
    InStep L (Value.Alike L) (evaluateKind call s (.binary op left right))
      (evaluateKind call' s (.binary op left' right')) := by
  rw [evaluateKind, evaluateKind]
  refine .bind leftInStep fun l l' first => ?_
  have data := first.eq_or_not_plain.imp_left And.left
  rw [op.leftFault?_eq first.kind_eq data, op.decided?_eq data]
  cases fault : op.leftFault? l with
  | some cause =>
    exact .failAt leftAlike.node fun lax => ((op.leftFault?_ofOperator fault).not_isLax lax).elim
  | none =>
    cases decided : op.decided? l with
    | some v => exact .pure (.plain (op.decided?_plain decided))
    | none =>
      refine .bind rightInStep fun r r' second => .located rightAlike.node ?_
      exact .rule (fun h k heaps => op.combine_eq (first.resembles heaps) (second.resembles heaps)
          (Value.equals_alike first second))
        (fun h v ok => .plain (op.combine_plain ok))
        fun h cause error => (op.combine_ofOperator error).not_isLax

theorem property_inStep {receiver receiver' : Expr} {name : String}
    (alike : receiver.Alike L receiver')
    (inStep : InStep L (Value.Alike L) (evaluate call s receiver) (evaluate call' s receiver')) :
    InStep L (Value.Alike L) (evaluateKind call s (.property receiver name))
      (evaluateKind call' s (.property receiver' name)) := by
  rw [evaluateKind, evaluateKind]
  refine .bind inStep fun v u object =>
    .bind_eq (membersOf_inStep alike.node object) fun members =>
    .bind (.read fun h k heaps => heaps.lookup members name) fun found found' same => ?_
  cases same with
  | none => exact .fail id
  | some value => exact .pure value

/-- Names lead to values that are alike, so what is called in the one run is called in the other. -/
theorem call_inStep (calls : Caller.Alike L call call') {name : String} {es es' : List Expr}
    (arguments : InStep L (Value.AllAlike L) (evaluateAll call s es) (evaluateAll call' s es')) :
    InStep L (Value.Alike L) (evaluateKind call s (.call name es))
      (evaluateKind call' s (.call name es')) := by
  rw [evaluateKind, evaluateKind]
  refine .bind (.read fun h k heaps => heaps.resolve s name) fun found found' same => ?_
  cases same with
  | none => exact .fail id
  | @some v u callee =>
    cases callee with
    | plain data => cases v <;> first | exact data.elim | exact .fail id
    | builtin f => exact .bind arguments fun _ _ all => invoke_inStep calls (.builtin f) all
    | closure alike =>
      exact .bind arguments fun _ _ all => invoke_inStep calls (.closure alike) all
    | _ => exact .fail id

theorem invokeMember_inStep (calls : Caller.Alike L call call') {receiver receiver' : Expr}
    {name : String} {es es' : List Expr} (alike : receiver.Alike L receiver')
    (inStep : InStep L (Value.Alike L) (evaluate call s receiver) (evaluate call' s receiver'))
    (arguments : InStep L (Value.AllAlike L) (evaluateAll call s es) (evaluateAll call' s es')) :
    InStep L (Value.Alike L) (evaluateKind call s (.invoke receiver name es))
      (evaluateKind call' s (.invoke receiver' name es')) := by
  rw [evaluateKind, evaluateKind]
  refine .bind inStep fun object object' this =>
    .bind_eq (membersOf_inStep alike.node this) fun members =>
    .bind (.read fun h k heaps => heaps.lookup members name) fun found found' same => ?_
  cases same with
  | none => exact .fail id
  | @some v u callee =>
    cases callee with
    | plain data => cases v <;> first | exact data.elim | exact .fail id
    | builtin f =>
      exact .bind arguments fun _ _ all => invoke_inStep calls (.builtin f) (.cons this all)
    | closure alike =>
      exact .bind arguments fun _ _ all => invoke_inStep calls (.closure alike) (.cons this all)
    | _ => exact .fail id

end Kinds

mutual

theorem evaluate_inStep (calls : Caller.Alike L call call') (s : ScopeId) : ∀ {e e' : Expr},
    e.Alike L e' → InStep L (Value.Alike L) (evaluate call s e) (evaluate call' s e')
  | ⟨node, kind⟩, ⟨node', kind'⟩, alike => by
    rw [Expr.Alike] at alike
    rw [evaluate, evaluate]
    exact .located alike.1 (evaluateKind_inStep calls s alike.2)

/-- Expressions that are alike are evaluated in step. -/
theorem evaluateKind_inStep (calls : Caller.Alike L call call') (s : ScopeId) :
    ∀ {k k' : ExprKind}, k.Alike L k' →
      InStep L (Value.Alike L) (evaluateKind call s k) (evaluateKind call' s k')
  | .literal value, k', alike => by
    rw [ExprKind.Alike] at alike
    subst alike
    rw [evaluateKind, evaluateKind]
    exact .pure (.ofLiteral value)
  | .group inner, k', alike => by
    rw [ExprKind.Alike] at alike
    obtain ⟨inner', rfl, alike⟩ := alike
    rw [evaluateKind, evaluateKind]
    exact evaluate_inStep calls s alike
  | .binary op left right, k', alike => by
    rw [ExprKind.Alike] at alike
    obtain ⟨left', right', rfl, left, right⟩ := alike
    exact binary_inStep left right (evaluate_inStep calls s left) (evaluate_inStep calls s right)
  | .variable name, k', alike => by
    rw [ExprKind.Alike] at alike
    subst alike
    rw [evaluateKind, evaluateKind]
    refine .bind (.read fun h k heaps => heaps.resolve s name) fun found found' same => ?_
    cases same with
    | none => exact .fail id
    | some value => exact .pure value
  | .property receiver name, k', alike => by
    rw [ExprKind.Alike] at alike
    obtain ⟨receiver', rfl, receiver⟩ := alike
    exact property_inStep receiver (evaluate_inStep calls s receiver)
  | .call name arguments, k', alike => by
    rw [ExprKind.Alike] at alike
    obtain ⟨arguments', rfl, all⟩ := alike
    exact call_inStep calls (evaluateAll_inStep calls s all)
  | .invoke receiver name arguments, k', alike => by
    rw [ExprKind.Alike] at alike
    obtain ⟨receiver', arguments', rfl, receiver, all⟩ := alike
    exact invokeMember_inStep calls receiver (evaluate_inStep calls s receiver)
      (evaluateAll_inStep calls s all)
  | .object name fields methods, k', alike => by
    rw [ExprKind.Alike] at alike
    obtain ⟨fields', methods', rfl, fields, methods⟩ := alike
    rw [evaluateKind, evaluateKind]
    -- Heaps that are alike have one size, so the members are put into the same new scope.
    exact .bind_eq .root fun members =>
      .bind_eq (defineFields_inStep calls s members fields) fun _ =>
      .bind_eq (defineMethods_inStep members methods) fun _ => .pure (.object name members)

theorem evaluateAll_inStep (calls : Caller.Alike L call call') (s : ScopeId) :
    ∀ {es es' : List Expr}, Expr.AllAlike L es es' →
      InStep L (Value.AllAlike L) (evaluateAll call s es) (evaluateAll call' s es')
  | [], es', alike => by
    rw [Expr.AllAlike] at alike
    subst alike
    exact .pure .nil
  | e :: rest, es', alike => by
    rw [Expr.AllAlike] at alike
    obtain ⟨e', rest', rfl, first, following⟩ := alike
    rw [evaluateAll, evaluateAll]
    exact .bind (evaluate_inStep calls s first) fun _ _ value =>
      .bind (evaluateAll_inStep calls s following) fun _ _ all => .pure (.cons value all)

theorem evaluateOption_inStep (calls : Caller.Alike L call call') (s : ScopeId) :
    ∀ {value value' : Option Expr}, Expr.OptionAlike L value value' →
      InStep L (Value.Alike L) (evaluateOption call s value) (evaluateOption call' s value')
  | none, value', alike => by
    rw [Expr.OptionAlike] at alike
    subst alike
    exact .pure .nil
  | some e, value', alike => by
    rw [Expr.OptionAlike] at alike
    obtain ⟨e', rfl, alike⟩ := alike
    exact evaluate_inStep calls s alike

theorem defineFields_inStep (calls : Caller.Alike L call call') (s members : ScopeId) :
    ∀ {fs fs' : List Field}, Field.AllAlike L fs fs' →
      InStep L Eq (defineFields call s members fs) (defineFields call' s members fs')
  | [], fs', alike => by
    rw [Field.AllAlike] at alike
    subst alike
    exact .pure rfl
  | ⟨node, ⟨name, ty, value⟩⟩ :: rest, fs', alike => by
    rw [Field.AllAlike] at alike
    obtain ⟨⟨node', ⟨name', ty', value'⟩⟩, rest', rfl, nodes, binding, following⟩ := alike
    rw [Binding.Alike] at binding
    obtain ⟨rfl, value⟩ := binding
    rw [defineFields, defineFields]
    exact .bind (evaluateOption_inStep calls s value) fun _ _ value =>
      .bind_eq (.located nodes (.define value id)) fun _ =>
      defineFields_inStep calls s members following

end

/-! ## Statements -/

theorem assign_of_not_isTarget {s : ScopeId} {target : Expr} {v : Value}
    (unfit : target.kind.isTarget = false) :
    assign call s target v = failAt target.node .badTarget := by
  obtain ⟨node, kind⟩ := target
  cases kind with
  | «variable» | property => cases unfit
  | _ => rfl

/-- Assignments that are alike are to the same name or to the member of a receiver that is alike. -/
theorem assign_inStep (calls : Caller.Alike L call call') (s : ScopeId) {target target' : Expr}
    (alike : target.Alike L target') (fit : target.kind.isTarget = true ∨ L.lax) {v u : Value}
    (value : v.Alike L u) : InStep L Eq (assign call s target v) (assign call' s target' u) := by
  obtain ⟨node, kind⟩ := target
  obtain ⟨node', kind'⟩ := target'
  rw [Expr.Alike] at alike
  obtain ⟨nodes, alike⟩ := alike
  rcases Bool.eq_false_or_eq_true kind.isTarget with target | unfit
  case inr =>
    rw [assign_of_not_isTarget unfit, assign_of_not_isTarget (alike.isTarget_eq.trans unfit)]
    exact .failAt nodes fun _ => fit.resolve_left fun target => Bool.false_ne_true (unfit ▸ target)
  cases kind with
  | «variable» name =>
    rw [ExprKind.Alike] at alike
    subst alike
    unfold assign
    refine .bind_eq (.read fun h k heaps => (heaps.owner?_eq s name).symm) fun owner => ?_
    cases owner with
    | none => exact .failAt nodes False.elim
    | some owner => exact .put value
  | property receiver name =>
    rw [ExprKind.Alike] at alike
    obtain ⟨receiver', rfl, receiver⟩ := alike
    unfold assign
    refine .bind (evaluate_inStep calls s receiver) fun _ _ object =>
      .bind_eq (membersOf_inStep receiver.node object) fun members =>
      .bind (.read fun h k heaps => heaps.lookup members name) fun found found' same => ?_
    cases same with
    | none => exact .failAt nodes False.elim
    | some _ => exact .put value
  | _ => cases target

theorem parameterFault?_strict {isMethod : Bool} {cause : EvalError} :
    ∀ {names seen : List String}, parameterFault? isMethod seen names = some cause → ¬cause.IsLax
  | [], _, fault => by cases fault
  | name :: rest, seen, fault => by
    rw [parameterFault?] at fault
    split_ifs at fault
    · cases fault
      exact id
    · cases fault
      exact id
    · exact parameterFault?_strict fault

theorem checkParameters_inStep {isMethod : Bool} {d e : Definition} (alike : d.Alike L e) :
    InStep L Eq (checkParameters isMethod d) (checkParameters isMethod e) := by
  unfold checkParameters
  rw [alike.paramNames_eq]
  cases fault : parameterFault? isMethod [] d.paramNames with
  | none => exact .pure rfl
  | some cause => exact .fail (parameterFault?_strict fault)

theorem overElements_inStep (s : ScopeId) (name : String) {P : Prop}
    {body body' : ScopeId → Run Flow}
    (bodies : ∀ t, InStep L (Flow.Alike L True P) (body t) (body' t)) {vs us : List Value}
    (elements : Value.AllAlike L vs us) :
    InStep L (Flow.Alike L True P) (overElements s name body vs)
      (overElements s name body' us) := by
  induction elements with
  | nil => exact .pure (.value trivial .nil)
  | cons first _ following =>
    rw [overElements, overElements]
    refine .bind_eq (.child s (.single name first)) fun binding =>
      .bind_eq (.child binding .empty) fun inner => .bind (bodies inner) fun a b flow => ?_
    cases flow with
    | value _ _ => exact following
    | returned may value => exact .pure (.returned may value)

/-- Conditions that are alike are the same Boolean, or neither is one. -/
theorem ifElse_inStep {s : ScopeId} {condition condition' : Expr}
    {thenBody thenBody' elseBody elseBody' : List Stmt} (alike : condition.Alike L condition')
    (inStep : InStep L (Value.Alike L) (evaluate call s condition) (evaluate call' s condition'))
    (thenInStep : ∀ inner, InStep L (Flow.Alike L True (Stmt.anyReturn thenBody = true))
      (block call inner .nil thenBody) (block call' inner .nil thenBody'))
    (elseInStep : ∀ inner, InStep L (Flow.Alike L True (Stmt.anyReturn elseBody = true))
      (block call inner .nil elseBody) (block call' inner .nil elseBody')) :
    InStep L (Flow.Alike L True
        ((Stmt.anyReturn thenBody || Stmt.anyReturn elseBody) = true))
      (executeKind call s (.ifElse condition thenBody elseBody))
      (executeKind call' s (.ifElse condition' thenBody' elseBody')) := by
  rw [executeKind, executeKind]
  refine .bind inStep fun v u decided => ?_
  cases decided with
  | @plain v data =>
    cases v with
    | boolean b =>
      cases b with
      | true =>
        refine .bind_eq (.child s .empty) fun inner => (thenInStep inner).imp fun _ _ flow => ?_
        exact flow.imp id fun may => by rw [may, Bool.true_or]
      | false =>
        refine .bind_eq (.child s .empty) fun inner => (elseInStep inner).imp fun _ _ flow => ?_
        exact flow.imp id fun may => by rw [may, Bool.or_true]
    | iterable | function | object => exact data.elim
    | _ => exact .failAt alike.node False.elim
  | _ => exact .failAt alike.node False.elim

mutual

theorem execute_inStep (calls : Caller.Alike L call call') (s : ScopeId) : ∀ {x y : Stmt},
    x.Alike L y → InStep L (Flow.Alike L (x.kind.isReturn = false) (x.hasReturn = true))
      (execute call s x) (execute call' s y)
  | ⟨node, kind⟩, ⟨node', kind'⟩, alike => by
    rw [Stmt.Alike] at alike
    rw [execute, execute, Stmt.hasReturn]
    exact .located alike.1 (executeKind_inStep calls s alike.2)

/-- Statements that are alike are executed in step. -/
theorem executeKind_inStep (calls : Caller.Alike L call call') (s : ScopeId) :
    ∀ {k k' : StmtKind}, k.Alike L k' →
      InStep L (Flow.Alike L (k.isReturn = false) (k.hasReturn = true))
        (executeKind call s k) (executeKind call' s k')
  | .letVar ⟨name, ty, value⟩, k', alike => by
    rw [StmtKind.Alike] at alike
    obtain ⟨⟨name', ty', value'⟩, rfl, binding⟩ := alike
    rw [Binding.Alike] at binding
    obtain ⟨rfl, value⟩ := binding
    rw [executeKind, executeKind]
    exact .bind (evaluateOption_inStep calls s value) fun _ _ value =>
      .bind_eq (.define value id) fun _ => .pure (.value rfl value)
  | .defFun definition, k', alike => by
    rw [StmtKind.Alike] at alike
    obtain ⟨definition', rfl, alike⟩ := alike
    have closure : (Value.function (.closure ⟨definition, s, false⟩)).Alike L
        (.function (.closure ⟨definition', s, false⟩)) := .closure ⟨alike, rfl, rfl⟩
    rw [executeKind, executeKind, alike.name_eq]
    exact .bind_eq (checkParameters_inStep alike) fun _ =>
      .bind_eq (.define closure id) fun _ => .pure (.value rfl closure)
  | .ifElse condition thenBody elseBody, k', alike => by
    rw [StmtKind.Alike] at alike
    obtain ⟨condition', thenBody', elseBody', rfl, condition, thenBody, elseBody⟩ := alike
    rw [StmtKind.hasReturn]
    exact (ifElse_inStep condition (evaluate_inStep calls s condition)
      (fun inner => block_inStep calls inner .nil thenBody)
      fun inner => block_inStep calls inner .nil elseBody).imp fun _ _ flow =>
        flow.imp (fun _ => rfl) id
  | .forEach name iterable body, k', alike => by
    rw [StmtKind.Alike] at alike
    obtain ⟨iterable', body', rfl, iterable, body⟩ := alike
    rw [executeKind, executeKind, StmtKind.hasReturn]
    refine .bind (evaluate_inStep calls s iterable) fun v u sequence => ?_
    cases sequence with
    | plain data => cases v <;> first | exact data.elim | exact .failAt iterable.node False.elim
    | iterable elements =>
      exact (overElements_inStep s name (fun inner => block_inStep calls inner .nil body)
        elements).imp fun _ _ flow => flow.imp (fun _ => rfl) id
    | _ => exact .failAt iterable.node False.elim
  | .returns value, k', alike => by
    rw [StmtKind.Alike] at alike
    obtain ⟨value', rfl, value⟩ := alike
    rw [executeKind, executeKind]
    exact .bind (evaluateOption_inStep calls s value) fun _ _ value => .pure (.returned rfl value)
  | .expr e, k', alike => by
    rw [StmtKind.Alike] at alike
    obtain ⟨e', rfl, alike⟩ := alike
    rw [executeKind, executeKind]
    exact .bind (evaluate_inStep calls s alike) fun _ _ value => .pure (.value rfl value)
  | .assign target value, k', alike => by
    rw [StmtKind.Alike] at alike
    obtain ⟨target', value', rfl, target, value, fit⟩ := alike
    rw [executeKind, executeKind]
    exact .bind (evaluate_inStep calls s value) fun _ _ value =>
      .bind_eq (assign_inStep calls s target fit value) fun _ => .pure (.value rfl value)

theorem block_inStep (calls : Caller.Alike L call call') (s : ScopeId) {last last' : Value}
    (value : last.Alike L last') : ∀ {xs ys : List Stmt}, Stmt.AllAlike L xs ys →
      InStep L (Flow.Alike L True (Stmt.anyReturn xs = true))
        (block call s last xs) (block call' s last' ys)
  | [], ys, alike => by
    rw [Stmt.AllAlike] at alike
    subst alike
    exact .pure (.value trivial value)
  | x :: rest, ys, alike => by
    rw [Stmt.AllAlike] at alike
    obtain ⟨y, more, rfl, first, following⟩ := alike
    rw [block, block, Stmt.anyReturn]
    refine .bind (execute_inStep calls s first) fun a b flow => ?_
    cases flow with
    | value goes value =>
      -- A statement that has gone on is no `RETURN`, so the next ones are alike too.
      have following := following.resolve_left fun returns => Bool.false_ne_true (goes ▸ returns)
      exact (block_inStep calls s value following).imp fun _ _ flow =>
        flow.imp id fun may => by rw [may, Bool.or_true]
    | returned may value => exact .pure (.returned (by rw [may, Bool.true_or]) value)

end

/-! ## Calls and scripts -/

/-- Calls that are alike are refused alike: names, counts and the names of parameters are the
same. -/
theorem checkCall_inStep {f g : Closure} (alike : f.Alike L g) {vs us : List Value}
    (all : Value.AllAlike L vs us) : InStep L Eq (checkCall f vs) (checkCall g us) := by
  have count : us.length = vs.length := all.length_eq.symm
  have none : us.isEmpty = vs.isEmpty := by
    rw [Bool.eq_iff_iff, List.isEmpty_iff_length_eq_zero, List.isEmpty_iff_length_eq_zero, count]
  unfold checkCall
  rw [alike.isMethod, alike.name_eq, alike.params_length_eq, alike.arity_eq, none, count]
  dsimp only
  split
  · exact .fail_bind id
  split
  · exact .fail_bind id
  split
  · exact checkParameters_inStep alike.definition
  · exact .pure rfl

theorem runBody_inStep (calls : Caller.Alike L call call') {f g : Closure} (alike : f.Alike L g)
    {vs us : List Value} (all : Value.AllAlike L vs us) :
    InStep L (Value.Alike L) (runBody call f vs) (runBody call' g us) := by
  unfold runBody
  rw [alike.captured, alike.boundNames_eq]
  refine .bind_eq (.child f.captured (.ofList_zip all)) fun bound =>
    .bind_eq (.child bound .empty) fun inner =>
    .bind (block_inStep calls inner .nil alike.definition.body) fun a b flow => ?_
  cases flow with
  | value _ _ => exact .pure .nil
  | returned _ value => exact .pure value

/-- Closures that are alike are called in step. If more calls may be nested in the second run, it
goes on where the first one is stopped. -/
theorem callClosure_alike : ∀ {depth depth' : Nat}, depth ≤ depth' →
    Caller.Alike L (callClosure depth) (callClosure depth')
  -- The first run stops here, and the second one may go on as it likes.
  | 0, _, _ => fun _ _ _ _ _ _ => .tooDeep
  | depth + 1, depth' + 1, le => fun f g alike vs us all => by
    rw [callClosure, callClosure, enter_eq, enter_eq]
    exact .bind_eq (checkCall_inStep alike all) fun _ =>
      runBody_inStep (callClosure_alike (Nat.le_of_succ_le_succ le)) alike all

/-- At the top of a script a `RETURN` is a fault, at the node of its statement. -/
theorem statements_inStep (calls : Caller.Alike L call call') (s : ScopeId) {last last' : Value}
    (value : last.Alike L last') : ∀ {xs ys : List Stmt}, Stmt.AllAlike L xs ys →
      (Stmt.anyReturn xs = true → L.lax) →
      InStep L (Value.Alike L) (statements call s last xs) (statements call' s last' ys)
  | [], ys, alike, _ => by
    rw [Stmt.AllAlike] at alike
    subst alike
    exact .pure value
  | x :: rest, ys, alike, lax => by
    rw [Stmt.AllAlike] at alike
    obtain ⟨y, more, rfl, first, following⟩ := alike
    rw [Stmt.anyReturn] at lax
    rw [statements, statements]
    refine .bind (execute_inStep calls s first) fun a b flow => ?_
    cases flow with
    | value goes value =>
      have following := following.resolve_left fun returns => Bool.false_ne_true (goes ▸ returns)
      exact statements_inStep calls s value following fun may => lax (by rw [may, Bool.or_true])
    -- Only a statement with a `RETURN` in it returns, and such a one is there only if it may be.
    | returned may _ => exact .failAt first.node fun _ => lax (by rw [may, Bool.true_or])

theorem script_inStep {depth depth' : Nat} (le : depth ≤ depth') (s : ScopeId) {p q : Script}
    (alike : p.Alike L q) : InStep L (Value.Alike L) (script depth s p) (script depth' s q) :=
  statements_inStep (callClosure_alike le) s .nil alike.1 alike.2

/-! ### Faults have nodes -/

/-- What is located has a node. -/
theorem exists_node_of_located {α : Type} {node : NodeRef} {x : Run α} {w w' : World}
    {fault : Located EvalError} (stopped : located node x w = .error (.fault fault) w') :
    ∃ n, fault.node = some n := by
  unfold located at stopped
  cases result : x w with
  | ok a u =>
    rw [result] at stopped
    cases stopped
  | error halt u =>
    rw [result] at stopped
    cases halt with
    | tooDeep => cases stopped
    | fault inner =>
      cases stopped
      rw [Located.node_located]
      cases inner.node with
      | none => exact ⟨node, rfl⟩
      | some n => exact ⟨n, rfl⟩

theorem exists_node_of_statements {s : ScopeId} {fault : Located EvalError} {w' : World} :
    ∀ {xs : List Stmt} {last : Value} {w : World},
      statements call s last xs w = .error (.fault fault) w' → ∃ n, fault.node = some n
  | [], last, w, stopped => by cases stopped
  | ⟨node, kind⟩ :: rest, last, w, stopped => by
    rw [statements, execute] at stopped
    simp only [Bind.bind, EStateM.bind] at stopped
    split at stopped
    case h_1 flow u executed =>
      cases flow with
      | value v => exact exists_node_of_statements stopped
      | returned v =>
        cases stopped
        exact ⟨node, rfl⟩
    case h_2 halt u stopped' =>
      cases stopped
      exact exists_node_of_located stopped'

end Run

/-! ## Runs from the prelude -/

/-- The script comes to its end or fails: there is a depth that all of its calls keep to. -/
def Script.Finishes (fixtures : Bool) (p : Script) : Prop :=
  ∃ depth, ∀ w, p.runWithin fixtures depth ≠ .error .tooDeep w

/-- What a run of a script is stopped for, if it is at fault. -/
def Script.fault? (fixtures : Bool) (depth : Nat) (p : Script) : Option (Located EvalError) :=
  match p.runWithin fixtures depth with
  | .error (.fault fault) _ => some fault
  | _ => none

theorem Script.exists_of_fault? {fixtures : Bool} {depth : Nat} {p : Script}
    {fault : Located EvalError} (same : p.fault? fixtures depth = some fault) :
    ∃ w, p.runWithin fixtures depth = .error (.fault fault) w := by
  unfold fault? at same
  split at same <;> cases same
  exact ⟨_, by assumption⟩

/-- A prelude is alike to itself, since it holds no closures. -/
theorem RunSession.start_alike (fixtures : Bool) :
    (start fixtures).heap.AllAlike L (start fixtures).heap where
  size := rfl
  parents _ := rfl
  bindings s := by
    refine List.forall₂_same.mpr fun entry mem => ⟨rfl, ?_⟩
    have value := start_holds fixtures s entry.1 entry.2 (Bindings.find?_eq_some_of_mem mem)
    generalize entry.2 = v at value
    cases v with
    | function f =>
      cases f with
      | builtin f => exact .builtin f
      | closure f => cases value
    | object name members => exact .object name members
    | iterable elements =>
      refine .iterable (List.forall₂_same.mpr fun v mem => ?_)
      obtain ⟨n, rfl⟩ := exists_integer_of_isStartValue value mem
      exact .plain trivial
    | _ => exact .plain trivial

/-- Scripts that are alike come to ends that are alike, whatever more is granted to the second. -/
theorem Script.runWithin_alike (fixtures : Bool) {depth depth' : Nat} (le : depth ≤ depth')
    {p q : Script} (alike : p.Alike L q) : Run.EndsAlike L (Value.Alike L)
      (p.runWithin fixtures depth) (q.runWithin fixtures depth') :=
  Run.script_inStep le _ alike ⟨RunSession.start_alike fixtures, rfl⟩

theorem Script.exists_node_of_runWithin {fixtures : Bool} {depth : Nat} {p : Script}
    {fault : Located EvalError} {w : World}
    (stopped : p.runWithin fixtures depth = .error (.fault fault) w) :
    ∃ n, fault.node = some n :=
  Run.exists_node_of_statements stopped

/-! ## Runs that look the same -/

/-- Two ends of runs that look the same: with the same lines written, and with values of one kind
that are printed and debugged the same, or with faults of one kind and message at nodes that
`nodes` relates. A run that is stopped for its depth has not ended. -/
inductive SameEnd (nodes : NodeRef → NodeRef → Prop) :
    (r r' : EStateM.Result Halt World Value) → Prop
  | ok {v u : Value} {w x : World} : x.output = w.output → u.kind = v.kind →
      u.display x.heap = v.display w.heap →
      (u.layout x.heap).compact = (v.layout w.heap).compact → SameEnd nodes (.ok v w) (.ok u x)
  | fault {f g : Located EvalError} {w x : World} {n m : NodeRef} : x.output = w.output →
      g.cause.kind = f.cause.kind → g.cause.message = f.cause.message →
      f.node = some n → g.node = some m → nodes n m →
      SameEnd nodes (.error (.fault f) w) (.error (.fault g) x)
  | tooDeep {w : World} {r : EStateM.Result Halt World Value} : SameEnd nodes (.error .tooDeep w) r
  | meanwhile {r : EStateM.Result Halt World Value} {x : World} :
      SameEnd nodes r (.error .tooDeep x)

/-- The two runs may change places. -/
theorem SameEnd.symm {nodes nodes' : NodeRef → NodeRef → Prop}
    {r r' : EStateM.Result Halt World Value} (same : SameEnd nodes r r')
    (swap : ∀ n m, nodes n m → nodes' m n) : SameEnd nodes' r' r := by
  cases same with
  | ok output kind display debug => exact .ok output.symm kind.symm display.symm debug.symm
  | fault output kind message first second related =>
    exact .fault output.symm kind.symm message.symm second first (swap _ _ related)
  | tooDeep => exact .meanwhile
  | meanwhile => exact .tooDeep

namespace Run.EndsAlike

variable {r r' : EStateM.Result Halt World Value}

/-- Ends that are alike look the same from outside, provided that faults have nodes. -/
theorem sameEnd (ends : EndsAlike L (Value.Alike L) r r')
    (attributed : ∀ fault w, r = .error (.fault fault) w → ∃ n, fault.node = some n) :
    SameEnd L.nodes r r' := by
  cases ends with
  | ok value worlds =>
    exact .ok worlds.output value.kind_eq (Value.display_alike worlds.heap value)
      (congrArg Text.Layout.compact (Value.layout_alike worlds.heap value))
  | @fault f g _ _ _ cause nodes worlds =>
    obtain ⟨n, node⟩ := attributed _ _ rfl
    obtain ⟨m, node', related⟩ : ∃ m, g.node = some m ∧ L.nodes n m := by
      rw [node] at nodes
      generalize g.node = second at nodes
      cases nodes with
      | some related => exact ⟨_, rfl, related⟩
    exact .fault worlds.output (by rw [cause]) (by rw [cause]) node node' related
  | tooDeep => exact .tooDeep

theorem not_tooDeep (ends : EndsAlike L (Value.Alike L) r r')
    (finished : ∀ w, r ≠ .error .tooDeep w) (w : World) : r' ≠ .error .tooDeep w := by
  cases ends with
  | tooDeep => exact (finished _ rfl).elim
  | _ => exact nofun

end Run.EndsAlike

namespace Script

variable {p q : Script}

/-- Of scripts that are alike, one finishes with the other. -/
theorem Finishes.of_alike {fixtures : Bool} (finishes : p.Finishes fixtures) (alike : p.Alike L q) :
    q.Finishes fixtures := by
  obtain ⟨depth, finished⟩ := finishes
  exact ⟨depth, (runWithin_alike fixtures (Nat.le_refl depth) alike).not_tooDeep finished⟩

theorem sameEnd_of_alike (fixtures : Bool) {depth depth' : Nat} (le : depth ≤ depth')
    (alike : p.Alike L q) :
    SameEnd L.nodes (p.runWithin fixtures depth) (q.runWithin fixtures depth') :=
  (runWithin_alike fixtures le alike).sameEnd fun _ _ stopped => exists_node_of_runWithin stopped

/-- Annotations, identities and spans are erased when a script is run. Of scripts that differ only
in them both finish or none does, and their ends look the same, for every depth that is granted to
the one and to the other; a fault is at the same place of both. -/
theorem annotations_erased (fixtures : Bool) (same : p.bare = q.bare) :
    (p.Finishes fixtures ↔ q.Finishes fixtures) ∧
      ∀ depth depth', SameEnd (fun n m => (n, m) ∈ p.nodes.zip q.nodes)
        (p.runWithin fixtures depth) (q.runWithin fixtures depth') := by
  have forth : p.Alike (p.places q) q := alike_of_bare same
  have back : q.Alike (q.places p) p := alike_of_bare same.symm
  refine ⟨⟨fun finishes => finishes.of_alike forth, fun finishes => finishes.of_alike back⟩,
    fun depth depth' => ?_⟩
  rcases Nat.le_total depth depth' with le | le
  · exact sameEnd_of_alike fixtures le forth
  · refine (sameEnd_of_alike fixtures le back).symm fun n m mem => ?_
    rw [← List.zip_swap]
    exact List.mem_map_of_mem mem

end Script

/-- A method divides by a field that is zero. Nodes and annotations are left open. -/
def divisionScript (node : UInt32 → NodeRef) (ty : String → Option String) : Script :=
  ⟨[⟨node 0, .letVar ⟨"box", none, some ⟨node 1, .object (some "Box")
      [⟨node 2, ⟨"size", ty "Integer", some ⟨node 3, .literal (.integer 0)⟩⟩⟩]
      [⟨node 4, ⟨"share", [⟨"n", ty "Integer"⟩], ty "Any", [⟨node 5, .returns (some
        ⟨node 6, .binary .div ⟨node 7, .variable "n"⟩
          ⟨node 8, .property ⟨node 9, .variable "this"⟩ "size"⟩⟩)⟩]⟩⟩]⟩⟩⟩,
    ⟨node 10, .defFun ⟨"half", [⟨"b", ty "Any"⟩], ty "Integer", [⟨node 11, .returns (some
      ⟨node 12, .invoke ⟨node 13, .variable "b"⟩ "share"
        [⟨node 14, .literal (.integer 4)⟩]⟩)⟩]⟩⟩,
    ⟨node 15, .expr ⟨node 16, .call "print" [⟨node 17, .variable "box"⟩]⟩⟩,
    ⟨node 18, .expr ⟨node 19, .call "half" [⟨node 20, .variable "box"⟩]⟩⟩]⟩

/-- The script with spans and annotations. -/
def annotatedDivision : Script :=
  divisionScript (fun n => ⟨.given n, some ⟨n.toUInt64, n.toUInt64 + 1⟩⟩) some

/-- The script without them, and with other identities. -/
def plainDivision : Script :=
  divisionScript (fun n => ⟨.allotted (100 - n.toNat), none⟩) fun _ => none

theorem Script.annotations_erased_division :
    annotatedDivision.bare = plainDivision.bare ∧
      (annotatedDivision.Finishes false ↔ plainDivision.Finishes false) ∧
      SameEnd (fun n m => (n, m) ∈ annotatedDivision.nodes.zip plainDivision.nodes)
        (annotatedDivision.runWithin false 2) (plainDivision.runWithin false 3) ∧
      annotatedDivision.fault? false 2 =
        some ⟨.divisionByZero, some (.of ⟨.given 8, some ⟨8, 9⟩⟩)⟩ ∧
      plainDivision.fault? false 3 =
        some ⟨.divisionByZero, some (.of ⟨.allotted 92, none⟩)⟩ := by
  have first : annotatedDivision.bare = divisionScript (fun _ => default) fun _ => none := rfl
  have second : plainDivision.bare = divisionScript (fun _ => default) fun _ => none := rfl
  have same := first.trans second.symm
  obtain ⟨finishes, ends⟩ := Script.annotations_erased false same
  refine ⟨same, finishes, ends 2 3, ?_, ?_⟩
  · decide +kernel
  · decide +kernel

end GradualScript
