/-
# GradualScript.Proofs.Blame -- where faults are

A cause of a fault arises without a node: in a scope, in a rule of typing, in an operator or in a
builtin. The walk around it puts it at a node (`located`), and the first attribution stays. So a
fault is at one of the nodes that were walked over.

For the checker this is an induction on the script (`Check.Blames`). The evaluator also walks over
the bodies of closures, which may have been made long before. There it follows from running a script
beside itself: a script has the same bare tree as itself, so the node of a fault corresponds to
itself, and the nodes that do are those of the script.
-/

import GradualScript.Proofs.Run.Erasure

namespace GradualScript

namespace Check

variable {α β : Type} {N : NodeRef → Prop} {x : Check α} {f : α → Check β} {ctx : Context}

section Refused

variable {h h' : Heap Ty} {fault : Located CheckError}

/-- A sequence is refused for one of its two steps. -/
theorem bind_error (refused : (x >>= f) h = .error fault h') :
    x h = .error fault h' ∨ ∃ a h₁, f a h₁ = .error fault h' := by
  simp only [Bind.bind, EStateM.bind] at refused
  split at refused
  case h_1 a h₁ _ => exact Or.inr ⟨a, h₁, refused⟩
  case h_2 inner h₁ result =>
    cases refused
    exact Or.inl result

/-- A fault that leaves a step located at `node` has come out of the step, and has got this node or
one before. -/
theorem located_error {node : NodeRef} (refused : located node x h = .error fault h') :
    ∃ inner, x h = .error inner h' ∧ fault = inner.located node := by
  unfold located at refused
  split at refused
  case h_1 => cases refused
  case h_2 inner h₁ result =>
    cases refused
    exact ⟨inner, result, rfl⟩

end Refused

/-- The faults of a step belong to nodes of `N`, as far as they belong to a node. -/
def Blames (N : NodeRef → Prop) (x : Check α) : Prop :=
  ∀ ⦃h : Heap Ty⦄ ⦃fault : Located CheckError⦄ ⦃h' : Heap Ty⦄, x h = .error fault h' →
    ∀ n, fault.node = some n → N n

/-- The faults of a step belong to nodes of `N`. -/
def Attributes (N : NodeRef → Prop) (x : Check α) : Prop :=
  ∀ ⦃h : Heap Ty⦄ ⦃fault : Located CheckError⦄ ⦃h' : Heap Ty⦄, x h = .error fault h' →
    ∃ n, fault.node = some n ∧ N n

namespace Attributes

theorem blames (step : Attributes N x) : Blames N x := by
  intro h fault h' refused n attributed
  obtain ⟨m, same, blamed⟩ := step refused
  exact Option.some.inj (same.symm.trans attributed) ▸ blamed

theorem pure {a : α} : Attributes N (Pure.pure a : Check α) := fun _ _ _ refused => by cases refused

/-- The first step that is refused has said where. -/
theorem bind (first : Attributes N x) (second : ∀ a, Attributes N (f a)) :
    Attributes N (x >>= f) := by
  intro h fault h' refused
  rcases bind_error refused with early | ⟨a, _, late⟩
  · exact first early
  · exact second a late

end Attributes

namespace Blames

theorem pure {a : α} : Blames N (Pure.pure a : Check α) := fun _ _ _ refused => by cases refused

theorem bind (first : Blames N x) (second : ∀ a, Blames N (f a)) : Blames N (x >>= f) := by
  intro h fault h' refused
  rcases bind_error refused with early | ⟨a, _, late⟩
  · exact first early
  · exact second a late

/-- Whatever belongs to no node yet, belongs to `node` from here on. -/
theorem attributes {node : NodeRef} (blamed : N node) (step : Blames N x) :
    Attributes N (Check.located node x) := by
  intro h fault h' refused
  obtain ⟨inner, result, rfl⟩ := located_error refused
  -- What has been put at a node further inside stays there.
  rw [Located.node_located]
  cases attributed : inner.node with
  | none => exact ⟨node, rfl, blamed⟩
  | some n => exact ⟨n, rfl, step result n attributed⟩

theorem located {node : NodeRef} (blamed : N node) (step : Blames N x) :
    Blames N (Check.located node x) := (step.attributes blamed).blames

/-- A complaint about `node` itself. -/
theorem failAt {node : NodeRef} {cause : CheckError} (blamed : N node) :
    Blames N (Check.failAt node cause : Check α) := by
  intro h fault h' refused n attributed
  cases refused
  exact Option.some.inj attributed ▸ blamed

/-! ### Steps whose faults belong to no node yet -/

/-- A step that puts its faults nowhere puts them at no wrong node. -/
theorem of_unattributed
    (unattributed : ∀ h fault h', x h = .error fault h' → fault.node = none) : Blames N x :=
  fun _ _ _ refused n attributed => by
    rw [unattributed _ _ _ refused] at attributed
    cases attributed

theorem fail {cause : CheckError} : Blames N (Check.fail cause : Check α) :=
  of_unattributed fun _ _ _ refused => by
    cases refused
    rfl

theorem rule {result : Heap Ty → Except CheckError α} : Blames N (Check.rule result) :=
  of_unattributed fun h _ _ refused => by
    unfold Check.rule at refused
    cases judged : result h <;> rw [judged] at refused <;> cases refused
    rfl

theorem child {s : ScopeId} {b : Bindings Ty} : Blames N (Check.child s b) :=
  of_unattributed fun _ _ _ refused => by cases refused

theorem root : Blames N Check.root := of_unattributed fun _ _ _ refused => by cases refused

variable {s : ScopeId} {name : String} {t sub sup : Ty} {cause : CheckError}

theorem define : Blames N (Check.define s name t cause) :=
  of_unattributed fun _ _ _ refused => by
    unfold Check.define at refused
    split at refused <;> cases refused
    rfl

theorem resolve : Blames N (Check.resolve s name cause) :=
  of_unattributed fun _ _ _ refused => by
    unfold Check.resolve at refused
    split at refused <;> cases refused
    rfl

theorem requireSubtype : Blames N (Check.requireSubtype sub sup cause) :=
  of_unattributed fun _ _ _ refused => by
    unfold Check.requireSubtype at refused
    split at refused <;> cases refused
    rfl

theorem requireCount {callee : String} {expected found : Nat} :
    Blames N (Check.requireCount callee expected found) := by
  unfold Check.requireCount
  split
  · exact .pure
  · exact .fail

theorem annotationOrDynamic (ctx : Context) : ∀ ty, Blames N (Check.annotationOrDynamic ctx ty)
  | none => .pure
  | some _ => .resolve

theorem annotation? (ctx : Context) : ∀ ty, Blames N (Check.annotation? ctx ty)
  | none => .pure
  | some _ => by
    rw [Check.annotation?, map_eq_pure_bind]
    exact .bind .resolve fun _ => .pure

/-- The complaint about a parameter is left to the definition around it. -/
theorem params : ∀ (seen : List String) (ps : List Param), Blames N (Check.params ctx seen ps)
  | _, [] => .pure
  | seen, param :: rest => by
    have typed : Blames N (do
        let ty ← Check.annotationOrDynamic ctx param.ty
        return ⟨param.name, ty⟩ :: (← Check.params ctx (param.name :: seen) rest)) :=
      .bind (annotationOrDynamic ctx param.ty) fun _ => .bind (params _ rest) fun _ => .pure
    rw [Check.params]
    dsimp only
    split
    · exact .bind .fail fun _ => typed
    · exact typed

theorem bodyBindings (this : Option Ty) (ps : List Typed.Param) :
    Blames N (Check.bodyBindings this ps) := by
  unfold Check.bodyBindings
  cases this with
  | none => exact .pure
  | some this =>
    dsimp only
    split
    · exact .fail
    · exact .pure

end Blames

/-! ## The walk -/

mutual

theorem expr_blames : ∀ (e : Expr) (ctx : Context), (∀ n ∈ e.nodes, N n) → Blames N (expr ctx e)
  | ⟨node, kind⟩, ctx, all => by
    rw [Expr.nodes, List.forall_mem_cons] at all
    rw [expr]
    exact .located all.1 (.bind (exprKind_blames kind ctx all.2) fun _ => .pure)

/-- An expression leaves its own faults to its node, and those of its parts are at theirs. -/
theorem exprKind_blames : ∀ (k : ExprKind) (ctx : Context), (∀ n ∈ k.nodes, N n) →
    Blames N (exprKind ctx k)
  | .literal value, ctx, _ => by
    rw [exprKind]
    exact .pure
  | .group inner, ctx, all => by
    rw [ExprKind.nodes] at all
    rw [exprKind]
    exact .bind (expr_blames inner ctx all) fun _ => .pure
  | .binary op left right, ctx, all => by
    rw [ExprKind.nodes, List.forall_mem_append] at all
    rw [exprKind]
    exact .bind (expr_blames left ctx all.1) fun _ => .bind (expr_blames right ctx all.2) fun _ =>
      .bind .rule fun _ => .pure
  | .variable name, ctx, _ => by
    rw [exprKind]
    exact .bind .resolve fun _ => .pure
  | .property receiver name, ctx, all => by
    rw [ExprKind.nodes] at all
    rw [exprKind]
    exact .bind (expr_blames receiver ctx all) fun _ => .bind .rule fun _ => .pure
  | .call name arguments, ctx, all => by
    rw [ExprKind.nodes] at all
    rw [exprKind]
    refine .bind .resolve fun found => ?_
    cases found with
    | function params returns =>
      exact .bind .requireCount fun _ =>
        .bind (argumentList_blames arguments ctx name 0 params all) fun _ => .pure
    | _ => exact .fail
  | .invoke receiver name arguments, ctx, all => by
    rw [ExprKind.nodes, List.forall_mem_append] at all
    rw [exprKind]
    refine .bind (expr_blames receiver ctx all.1) fun _ => .bind .rule fun found => ?_
    split
    · exact .bind (exprs_blames arguments ctx all.2) fun _ => .pure
    · exact .bind .requireCount fun _ =>
        .bind (argumentList_blames arguments ctx name 0 _ all.2) fun _ => .pure
    · exact .fail
  | .object name fieldList methodList, ctx, all => by
    rw [ExprKind.nodes, List.forall_mem_append] at all
    rw [exprKind]
    exact .bind .root fun members => .bind (fields_blames fieldList ctx members all.1) fun _ =>
      .bind (methods_blames methodList _ _ all.2) fun _ => .pure

theorem exprs_blames : ∀ (es : List Expr) (ctx : Context), (∀ n ∈ Expr.allNodes es, N n) →
    Blames N (exprs ctx es)
  | [], ctx, _ => by
    rw [exprs]
    exact .pure
  | e :: rest, ctx, all => by
    rw [Expr.allNodes, List.forall_mem_append] at all
    rw [exprs]
    exact .bind (expr_blames e ctx all.1) fun _ =>
      .bind (exprs_blames rest ctx all.2) fun _ => .pure

/-- An argument of a wrong type is at fault itself, not the call. -/
theorem argumentList_blames : ∀ (es : List Expr) (ctx : Context) (callee : String) (index : Nat)
    (params : List Ty), (∀ n ∈ Expr.allNodes es, N n) →
    Blames N (argumentList ctx callee index params es)
  | [], ctx, callee, index, params, _ => by
    cases params <;> exact .pure
  | e :: rest, ctx, callee, index, [], _ => by
    exact .pure
  | e :: rest, ctx, callee, index, param :: params, all => by
    rw [Expr.allNodes, List.forall_mem_append] at all
    have blamed : N e.node := all.1 _ e.node_mem_nodes
    rw [argumentList]
    exact .bind (expr_blames e ctx all.1) fun _ => .bind (.located blamed .requireSubtype) fun _ =>
      .bind (argumentList_blames rest ctx callee _ params all.2) fun _ => .pure

/-- A value of a wrong type is at fault itself, not the binding. -/
theorem binding_blames : ∀ (b : Binding) (ctx : Context) (id : NodeId) (target : ScopeId),
    (∀ n ∈ b.nodes, N n) → Blames N (binding ctx id target b)
  | ⟨name, ty, none⟩, ctx, id, target, _ => by
    rw [binding]
    exact .bind (.annotation? ctx ty) fun _ => .bind .define fun _ => .pure
  | ⟨name, ty, some e⟩, ctx, id, target, all => by
    rw [Binding.nodes, Expr.optionNodes] at all
    have blamed : N e.node := all _ e.node_mem_nodes
    rw [binding]
    exact .bind (.annotation? ctx ty) fun _ => .bind (expr_blames e ctx all) fun _ =>
      .bind (.located blamed .requireSubtype) fun _ => .bind .define fun _ => .pure

theorem fields_blames : ∀ (fs : List Field) (ctx : Context) (target : ScopeId),
    (∀ n ∈ Field.allNodes fs, N n) → Blames N (fields ctx target fs)
  | [], ctx, target, _ => by
    rw [fields]
    exact .pure
  | ⟨node, b⟩ :: rest, ctx, target, all => by
    rw [Field.allNodes, List.forall_mem_cons, List.forall_mem_append] at all
    rw [fields]
    exact .bind (.located all.1 (binding_blames b ctx node.id target all.2.1)) fun _ =>
      .bind (fields_blames rest ctx target all.2.2) fun _ => .pure

/-- A body has been blamed for its own faults before the definition is. -/
theorem definition_blames : ∀ (d : Definition) (ctx : Context) (id : NodeId) (this : Option Ty),
    (∀ n ∈ d.nodes, N n) → Blames N (definition ctx id this d)
  | ⟨name, paramList, returns, body⟩, ctx, id, this, all => by
    rw [Definition.nodes] at all
    rw [definition]
    exact .bind (.annotationOrDynamic ctx returns) fun _ => .bind (.params [] paramList) fun ps =>
      .bind .define fun _ => .bind (.bodyBindings this ps) fun _ => .bind .child fun _ =>
      .bind (block_blames body _ all) fun _ => .pure

theorem methods_blames : ∀ (ms : List Method) (ctx : Context) (this : Ty),
    (∀ n ∈ Method.allNodes ms, N n) → Blames N (methods ctx this ms)
  | [], ctx, this, _ => by
    rw [methods]
    exact .pure
  | ⟨node, d⟩ :: rest, ctx, this, all => by
    rw [Method.allNodes, List.forall_mem_cons, List.forall_mem_append] at all
    rw [methods]
    exact .bind (.located all.1 (definition_blames d ctx node.id (some this) all.2.1)) fun _ =>
      .bind (methods_blames rest ctx this all.2.2) fun _ => .pure

theorem stmt_blames : ∀ (x : Stmt) (ctx : Context), (∀ n ∈ x.nodes, N n) → Blames N (stmt ctx x)
  | ⟨node, kind⟩, ctx, all => by
    rw [Stmt.nodes, List.forall_mem_cons] at all
    rw [stmt]
    exact .located all.1 (.bind (stmtKind_blames kind ctx node.id all.2) fun _ => .pure)

/-- A statement leaves its own faults to its node, and those of its parts are at theirs. -/
theorem stmtKind_blames : ∀ (k : StmtKind) (ctx : Context) (id : NodeId), (∀ n ∈ k.nodes, N n) →
    Blames N (stmtKind ctx id k)
  | .letVar b, ctx, id, all => by
    rw [StmtKind.nodes] at all
    rw [stmtKind]
    exact .bind (binding_blames b ctx id ctx.scope all) fun _ => .pure
  | .defFun d, ctx, id, all => by
    rw [StmtKind.nodes] at all
    rw [stmtKind]
    exact .bind (definition_blames d ctx id none all) fun _ => .pure
  | .ifElse condition thenBody elseBody, ctx, id, all => by
    rw [StmtKind.nodes, List.forall_mem_append, List.forall_mem_append] at all
    rw [stmtKind]
    refine .bind (expr_blames condition ctx all.1) fun c => ?_
    have branches : Blames N (do
        let thenScope ← child ctx.scope .empty
        let thenBody ← block { ctx with scope := thenScope } thenBody
        let elseScope ← child ctx.scope .empty
        let elseBody ← block { ctx with scope := elseScope } elseBody
        return Typed.StmtKind.ifElse c thenBody elseBody) :=
      .bind .child fun _ => .bind (block_blames thenBody _ all.2.1) fun _ =>
        .bind .child fun _ => .bind (block_blames elseBody _ all.2.2) fun _ => .pure
    dsimp only
    split
    · exact .bind .fail fun _ => branches
    · exact branches
  | .forEach name iterable body, ctx, id, all => by
    rw [StmtKind.nodes, List.forall_mem_append] at all
    rw [stmtKind]
    exact .bind (expr_blames iterable ctx all.1) fun _ => .bind .requireSubtype fun _ =>
      .bind .child fun _ => .bind (block_blames body _ all.2) fun _ => .pure
  | .returns value, ctx, id, all => by
    rw [StmtKind.nodes] at all
    rw [stmtKind]
    cases ctx.returns with
    | none => exact .fail
    | some expected =>
      cases value with
      | none => exact .bind .requireSubtype fun _ => .pure
      | some e =>
        rw [Expr.optionNodes] at all
        exact .bind (expr_blames e ctx all) fun _ => .bind .requireSubtype fun _ => .pure
  | .expr e, ctx, id, all => by
    rw [StmtKind.nodes] at all
    rw [stmtKind]
    exact .bind (expr_blames e ctx all) fun _ => .pure
  | .assign ⟨node, kind⟩ value, ctx, id, all => by
    rw [StmtKind.nodes, List.forall_mem_append, Expr.nodes, List.forall_mem_cons] at all
    cases kind with
    | «variable» name =>
      rw [stmtKind]
      exact .bind (.located all.1.1 .resolve) fun _ => .bind (expr_blames value ctx all.2) fun _ =>
        .bind .requireSubtype fun _ => .pure
    | property receiver name =>
      rw [ExprKind.nodes] at all
      rw [stmtKind]
      exact .bind (expr_blames receiver ctx all.1.2) fun _ =>
        .bind (.located all.1.1 .rule) fun _ =>
        .bind (expr_blames value ctx all.2) fun _ => .bind .requireSubtype fun _ => .pure
    | _ => exact .failAt all.1.1

theorem block_blames : ∀ (xs : List Stmt) (ctx : Context), (∀ n ∈ Stmt.allNodes xs, N n) →
    Blames N (block ctx xs)
  | [], ctx, _ => by
    rw [block]
    exact .pure
  | x :: rest, ctx, all => by
    rw [Stmt.allNodes, List.forall_mem_append] at all
    rw [block]
    exact .bind (stmt_blames x ctx all.1) fun _ =>
      .bind (block_blames rest ctx all.2) fun _ => .pure

end

/-- The faults of statements do belong to nodes. -/
theorem block_attributes : ∀ (xs : List Stmt) (ctx : Context), (∀ n ∈ Stmt.allNodes xs, N n) →
    Attributes N (block ctx xs)
  | [], ctx, _ => by
    rw [block]
    exact .pure
  | ⟨node, kind⟩ :: rest, ctx, all => by
    rw [Stmt.allNodes, List.forall_mem_append, Stmt.nodes, List.forall_mem_cons] at all
    have first : Attributes N (stmt ctx ⟨node, kind⟩) := by
      rw [stmt]
      exact Blames.attributes all.1.1
        (.bind (stmtKind_blames kind ctx node.id all.1.2) fun _ => .pure)
    rw [block]
    exact first.bind fun _ => (block_attributes rest ctx all.2).bind fun _ => .pure

end Check

/-- A refused script is at fault at one of its nodes. -/
theorem Script.exists_node_of_refused {fixtures : Bool} {p : Script} {d : Diagnostic}
    (refused : (p.check fixtures).1 = .error d) : ∃ n ∈ p.nodes, d.node = some n := by
  have blocks := Check.block_attributes (N := (· ∈ p.nodes)) p.statements
    { scope := (CheckSession.start fixtures).scope } fun _ mem => mem
  unfold Script.check CheckSession.check at refused
  dsimp only at refused
  cases result : Check.block { scope := (CheckSession.start fixtures).scope } p.statements
      (CheckSession.start fixtures).heap with
  | ok typed h =>
    rw [result] at refused
    cases refused
  | error fault h =>
    rw [result] at refused
    obtain ⟨n, attributed, mem⟩ := blocks result
    cases refused
    exact ⟨n, mem, attributed⟩

/-- A failed run is at fault at one of the nodes of its script, however deep inside calls. -/
theorem Script.exists_node_of_stopped {fixtures : Bool} {depth : Nat} {p : Script}
    {fault : Located EvalError} {w : World}
    (stopped : p.runWithin fixtures depth = .error (.fault fault) w) :
    ∃ n ∈ p.nodes, fault.node = some n := by
  have ends := runWithin_alike fixtures (Nat.le_refl depth) (alike_of_bare (rfl : p.bare = p.bare))
  rw [stopped] at ends
  obtain ⟨n, attributed⟩ := exists_node_of_runWithin stopped
  cases ends with
  | fault _ _ nodes _ =>
    rw [attributed] at nodes
    cases nodes with
    | some corresponds => exact ⟨n, (List.of_mem_zip corresponds).1, attributed⟩

/-! ## Labels -/

/-- A report points into a script: it has a node of the script and the span of that node, and one
label, on this span, or no label if the node has no span. -/
def Diagnostic.PointsInto (d : Diagnostic) (p : Script) : Prop :=
  ∃ n ∈ p.nodes, d.node = some n ∧ d.span = n.span ∧
    match n.span with
    | none => d.labels = []
    | some span => ∃ label, d.labels = [label] ∧ label.offset = span.start ∧
        (label.length : Int) = max 0 ((span.stop.toNat : Int) - span.start.toNat)

/-- The label of a report is on the span that was put there with the node. -/
theorem Diagnostic.pointsInto_of_node {d : Diagnostic} {p : Script} {n : NodeRef}
    (mem : n ∈ p.nodes) (attributed : d.node = some n) : d.PointsInto p := by
  have span := Diagnostic.span_of_node attributed
  refine ⟨n, mem, attributed, span, ?_⟩
  unfold Diagnostic.labels
  rw [span]
  cases n.span with
  | none => rfl
  | some span =>
    refine ⟨_, rfl, rfl, ?_⟩
    show ((span.stop.toNat - span.start.toNat : Nat) : Int) = _
    omega

/-- Every report points into the script it is about: that of a script which is refused, and that of
a script which fails when it is run. -/
theorem Script.errors_point_into (fixtures : Bool) (p : Script) :
    (∀ d, (p.check fixtures).1 = .error d → d.PointsInto p) ∧
      ∀ depth fault w, p.runWithin fixtures depth = .error (.fault fault) w →
        fault.runDiagnostic.PointsInto p := by
  refine ⟨fun d refused => ?_, fun depth fault w stopped => ?_⟩
  · obtain ⟨n, mem, attributed⟩ := exists_node_of_refused refused
    exact Diagnostic.pointsInto_of_node mem attributed
  · obtain ⟨n, mem, attributed⟩ := exists_node_of_stopped stopped
    exact Diagnostic.pointsInto_of_node mem attributed

/-- A `RETURN` at the top, with a span that ends before it starts. -/
def reversedScript : Script := ⟨[⟨⟨.given 4, some ⟨9, 2⟩⟩, .returns none⟩]⟩

/-- A span that ends before it starts gives a label without length. -/
theorem Script.errors_point_into_reversed :
    (∃ d, (reversedScript.check false).1 = .error d ∧ d.PointsInto reversedScript ∧
      d.labels = [⟨9, 0, "control-flow error here"⟩]) ∧
    ∃ fault w, annotatedDivision.runWithin false 2 = .error (.fault fault) w ∧
      fault.runDiagnostic.PointsInto annotatedDivision ∧
      fault.runDiagnostic.labels = [⟨8, 1, "arithmetic error here"⟩] := by
  obtain ⟨w, stopped⟩ := Script.exists_of_fault?
    (show annotatedDivision.fault? false 2 =
      some ⟨.divisionByZero, some (.of ⟨.given 8, some ⟨8, 9⟩⟩)⟩ by decide +kernel)
  obtain ⟨refused, _⟩ := Script.errors_point_into false reversedScript
  obtain ⟨_, failed⟩ := Script.errors_point_into false annotatedDivision
  exact ⟨⟨_, rfl, refused _ rfl, by decide⟩, _, w, stopped, failed 2 _ w stopped, by decide⟩

end GradualScript
