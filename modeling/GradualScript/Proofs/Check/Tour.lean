/-
# GradualScript.Proofs.Check.Tour -- checks that keep their context

The checker hands its context down. A checker that keeps the context in its state has to replace it
at every block, loop, function and object, and to put it back on every way out, also that of a
fault. The touring checker does so. Besides the heap and the context, its state holds the home of
the code that is being checked, which is the member scope of the object whose method it is in, and a
record of all visits: at which expression or statement the check was, in which context and at which
home.

A tour does what the checker does, comes back to its context and its home wherever it ends, and
visits only places whose active scope is in accordance with the home (`Tours`): the chain of the
active scope ends in the members of the object, and outside of methods in the scope in which the
scope of the script ends.
-/

import GradualScript.Proofs.Check.Frame

namespace GradualScript

/-! ## Tours -/

/-- What is checked at a time. -/
inductive Part where
  | expr (e : Expr)
  | stmt (x : Stmt)

/-- What is checked, in which context, and the heap at that time. -/
structure Visit where
  part : Part
  context : Context
  /-- The members of the object whose method is being checked. -/
  home : Option ScopeId
  heap : Heap Ty

/-- The state of a check that keeps its context. -/
structure Tour where
  heap : Heap Ty
  context : Context
  home : Option ScopeId
  /-- What has been checked so far, in order. -/
  visits : List Visit

/-- A step of a check that keeps its context. -/
abbrev Toured (α : Type) := EStateM (Located CheckError) Tour α

namespace Toured

variable {α : Type}

/-- A step of the checker in the present context. -/
def here (step : Context → Check α) : Toured α := fun r =>
  match step r.context r.heap with
  | .ok a h => .ok a { r with heap := h }
  | .error fault h => .error fault { r with heap := h }

/-- A step of the checker that does not depend on the context. -/
def lift (step : Check α) : Toured α := here fun _ => step

/-- Records what is checked from here on. -/
def visit (part : Part) : Toured Unit := fun r =>
  .ok () { r with visits := r.visits ++ [⟨part, r.context, r.home, r.heap⟩] }

/-- Attributes the faults of a step to `node`, unless they belong to a node already. -/
def located (node : NodeRef) (step : Toured α) : Toured α := fun r =>
  match step r with
  | .ok a r => .ok a r
  | .error fault r => .error (fault.located node) r

/-- Takes a step in another context and at another home, and returns to where the check was, also if
the step fails. -/
def within (context : Context) (home : Option ScopeId) (step : Toured α) : Toured α := fun r =>
  match step { r with context := context, home := home } with
  | .ok a r' => .ok a { r' with context := r.context, home := r.home }
  | .error fault r' => .error fault { r' with context := r.context, home := r.home }

/-- Takes a step in a new scope inside the active one; `returns` is the declared result, if this is
the body of a function. -/
def enterChild (b : Bindings Ty) (returns : Option Ty) (step : Toured α) : Toured α := do
  let s ← here fun ctx => Check.child ctx.scope b
  fun r =>
    within { r.context with scope := s, returns := returns.or r.context.returns } r.home step r

/-- Takes a step in the members of an object, as its methods are checked. -/
def enterMembers (members : ScopeId) (step : Toured α) : Toured α := fun r =>
  within ⟨members, some (r.context.annotations.getD r.context.scope), none⟩ (some members) step r

/-! ## The touring checker -/

mutual

def expr : Expr → Toured Typed.Expr
  | ⟨node, kind⟩ => do
    visit (.expr ⟨node, kind⟩)
    located node do
      let (kind, ty) ← exprKind kind
      return ⟨node.id, ty, kind⟩

def exprKind : ExprKind → Toured (Typed.ExprKind × Ty)
  | .literal value => pure (.literal value, value.ty)
  | .group inner => do
    let inner ← expr inner
    return (.group inner, inner.ty)
  | .binary op left right => do
    let left ← expr left
    let right ← expr right
    let ty ← lift (Check.rule fun h => op.type h left.ty right.ty)
    return (.binary op left right, ty)
  | .variable name => do
    let ty ← here fun ctx => Check.resolve ctx.scope name (.undefinedVariable name)
    return (.variable name, ty)
  | .property receiver name => do
    let receiver ← expr receiver
    let ty ← lift (Check.rule fun h => Check.memberType h receiver.ty name .property)
    return (.property receiver name, ty)
  | .call name arguments => do
    match ← here fun ctx => Check.resolve ctx.scope name (.undefinedFunction name) with
    | .function params returns =>
      lift (Check.requireCount name params.length arguments.length)
      let arguments ← argumentList name 0 params arguments
      return (.call name arguments, returns)
    | found => lift (Check.fail (.notFunction name found))
  | .invoke receiver name arguments => do
    let receiver ← expr receiver
    match ← lift (Check.rule fun h => Check.memberType h receiver.ty name .method) with
    | .dynamic =>
      let arguments ← exprs arguments
      return (.invoke receiver name arguments, .dynamic)
    | .function params returns =>
      lift (Check.requireCount name params.length arguments.length)
      let arguments ← argumentList name 0 params arguments
      return (.invoke receiver name arguments, returns)
    | found => lift (Check.fail (.notMethod name found))
  | .object name fieldList methodList => do
    let members ← lift Check.root
    let fieldList ← fields members fieldList
    let this := Ty.object name members
    let methodList ← enterMembers members (methods this methodList)
    return (.object name fieldList methodList, this)

def exprs : List Expr → Toured (List Typed.Expr)
  | [] => pure []
  | e :: es => do
    let e ← expr e
    return e :: (← exprs es)

def argumentList (callee : String) : Nat → List Ty → List Expr → Toured (List Typed.Expr)
  | index, param :: params, e :: es => do
    let argument ← expr e
    lift (Check.located e.node
      (Check.requireSubtype argument.ty param (.argumentMismatch index callee param argument.ty)))
    return argument :: (← argumentList callee (index + 1) params es)
  | _, _, _ => pure []

def binding (id : NodeId) (target : ScopeId) : Binding → Toured Typed.Binding
  | ⟨name, ty, value⟩ => do
    let declared ← here fun ctx => Check.annotation? ctx ty
    match value with
    | none =>
      let ty := declared.getD .dynamic
      lift (Check.define target name ty (.variableDefined name))
      return ⟨id, name, ty, none⟩
    | some e =>
      let value ← expr e
      let ty := declared.getD value.ty
      lift (Check.located e.node (Check.requireSubtype value.ty ty (.mismatch ty value.ty)))
      lift (Check.define target name ty (.variableDefined name))
      return ⟨id, name, ty, some value⟩

def fields (target : ScopeId) : List Field → Toured (List Typed.Binding)
  | [] => pure []
  | ⟨node, b⟩ :: rest => do
    let b ← located node (binding node.id target b)
    return b :: (← fields target rest)

def definition (id : NodeId) (this : Option Ty) : Definition → Toured Typed.Definition
  | ⟨name, paramList, returns, body⟩ => do
    let returns ← here fun ctx => Check.annotationOrDynamic ctx returns
    let paramList ← here fun ctx => Check.params ctx [] paramList
    here fun ctx => Check.define ctx.scope name
      (.function (paramList.map Typed.Param.ty) returns) (.functionDefined name)
    let bindings ← lift (Check.bodyBindings this paramList)
    let body ← enterChild bindings (some returns) (block body)
    return ⟨id, name, paramList, returns, body⟩

def methods (this : Ty) : List Method → Toured (List Typed.Definition)
  | [] => pure []
  | ⟨node, d⟩ :: rest => do
    let d ← located node (definition node.id (some this) d)
    return d :: (← methods this rest)

def stmt : Stmt → Toured Typed.Stmt
  | ⟨node, kind⟩ => do
    visit (.stmt ⟨node, kind⟩)
    located node do
      let kind ← stmtKind node.id kind
      return ⟨node.id, kind⟩

def stmtKind (id : NodeId) : StmtKind → Toured Typed.StmtKind
  | .letVar b => do
    let target ← here fun ctx => pure ctx.scope
    return .letVar (← binding id target b)
  | .defFun d => do return .defFun (← definition id none d)
  | .ifElse condition thenBody elseBody => do
    let condition ← expr condition
    lift (if !BinaryOp.isBooleanLike condition.ty
      then Check.fail (.conditionNotBoolean condition.ty) else pure ())
    let thenBody ← enterChild .empty none (block thenBody)
    let elseBody ← enterChild .empty none (block elseBody)
    return .ifElse condition thenBody elseBody
  | .forEach name iterable body => do
    let iterable ← expr iterable
    lift (Check.requireSubtype iterable.ty .iterable (.notIterable iterable.ty))
    let ty := if iterable.ty.isDynamic then Ty.dynamic else Ty.integer
    let body ← enterChild (.ofList [(name, ty)]) none (block body)
    return .forEach name ty iterable body
  | .returns value => do
    match ← here fun ctx => pure ctx.returns with
    | none => lift (Check.fail .returnOutsideFunction)
    | some expected =>
      match value with
      | none =>
        lift (Check.requireSubtype .nil expected (.returnMismatch expected .nil))
        return .returns none
      | some e =>
        let value ← expr e
        lift (Check.requireSubtype value.ty expected (.returnMismatch expected value.ty))
        return .returns (some value)
  | .expr e => do return .expr (← expr e)
  | .assign ⟨target, .variable name⟩ value => do
    let ty ← here fun ctx => Check.located target
      (Check.resolve ctx.scope name (.undefinedVariable name))
    let value ← expr value
    lift (Check.requireSubtype value.ty ty (.mismatch ty value.ty))
    return .assignVariable name ty value
  | .assign ⟨target, .property receiver name⟩ value => do
    let receiver ← expr receiver
    let ty ← lift (Check.located target
      (Check.rule fun h => Check.memberType h receiver.ty name .property))
    let value ← expr value
    lift (Check.requireSubtype value.ty ty (.mismatch ty value.ty))
    return .assignProperty receiver name ty value
  | .assign target _ => lift (Check.failAt target.node .badTarget)

def block : List Stmt → Toured (List Typed.Stmt)
  | [] => pure []
  | s :: rest => do
    let s ← stmt s
    return s :: (← block rest)

end

/-- What a step comes to, without its context and its record. -/
def forget : EStateM.Result (Located CheckError) Tour α →
    EStateM.Result (Located CheckError) (Heap Ty) α
  | .ok a r => .ok a r.heap
  | .error fault r => .error fault r.heap

/-- The state after a step, whether it succeeds or fails. -/
def after (x : Toured α) (r : Tour) : Tour :=
  match x r with
  | .ok _ r' => r'
  | .error _ r' => r'

end Toured

/-- The state at the beginning of a check. -/
def Tour.start (ctx : Context) (h : Heap Ty) : Tour := ⟨h, ctx, none, []⟩

/-! ## What a step does -/

/-- What is visited is visited in a scope that ends in the members of its home, or outside of
methods in `base`. Objects are younger than `base`. -/
structure Visit.Placed (base : ScopeId) (visit : Visit) : Prop where
  inside : visit.context.scope < visit.heap.size
  outermost : visit.heap.outermost visit.context.scope = visit.home.getD base
  younger : ∀ m, visit.home = some m → base < m

namespace Tour

variable {base s m : ScopeId} {r r' r'' : Tour} {ctx : Context}
    {home : Option ScopeId} {part : Part}
  {h : Heap Ty}

/-- All visits so far have been in their places, and nothing that was there has been lost. -/
def Recorded (base : ScopeId) (r : Tour) : Prop :=
  ∀ visit ∈ r.visits, visit.Placed base ∧ visit.heap.Keeps Set.univ r.heap

/-- A step can be taken in the context `ctx` at the home `home`. -/
structure Ready (base : ScopeId) (ctx : Context) (home : Option ScopeId) (r : Tour) : Prop where
  inContext : r.context = ctx
  atHome : r.home = home
  inside : ctx.scope < r.heap.size
  outermost : r.heap.outermost ctx.scope = home.getD base
  older : base < r.heap.size
  younger : ∀ m, home = some m → base < m
  recorded : r.Recorded base

/-- A step has led from `r` to `r'`. -/
structure Passes (base : ScopeId) (r r' : Tour) : Prop where
  context : r'.context = r.context
  home : r'.home = r.home
  heap : r.heap.Keeps Set.univ r'.heap
  recorded : r'.Recorded base

/-- The state with another heap. -/
def withHeap (r : Tour) (h : Heap Ty) : Tour := { r with heap := h }

/-- The state after a visit has begun. -/
def visited (r : Tour) (part : Part) : Tour :=
  { r with visits := r.visits ++ [⟨part, r.context, r.home, r.heap⟩] }

/-- The state in another context and at another home. -/
def moved (r : Tour) (ctx : Context) (home : Option ScopeId) : Tour :=
  { r with context := ctx, home := home }

namespace Passes

theorem refl (recorded : r.Recorded base) : Passes base r r := ⟨rfl, rfl, .refl _ _, recorded⟩

theorem trans (first : Passes base r r') (second : Passes base r' r'') : Passes base r r'' where
  context := second.context.trans first.context
  home := second.home.trans first.home
  heap := first.heap.trans second.heap
  recorded := second.recorded

theorem ready (passes : Passes base r r') (ready : Ready base ctx home r) :
    Ready base ctx home r' where
  inContext := passes.context.trans ready.inContext
  atHome := passes.home.trans ready.atHome
  inside := Nat.lt_of_lt_of_le ready.inside passes.heap.size_le
  outermost := by
    rw [Heap.outermost_of_parents passes.heap.parent ready.inside]
    exact ready.outermost
  older := Nat.lt_of_lt_of_le ready.older passes.heap.size_le
  younger := ready.younger
  recorded := passes.recorded

theorem withHeap (recorded : r.Recorded base) (keeps : r.heap.Keeps Set.univ h) :
    Passes base r (r.withHeap h) where
  context := rfl
  home := rfl
  heap := keeps
  recorded visit mem := ⟨(recorded visit mem).1, (recorded visit mem).2.trans keeps⟩

/-- A step that was taken elsewhere, when the check is back. -/
theorem back (passes : Passes base (r.moved ctx home) r') :
    Passes base r (r'.moved r.context r.home) where
  context := rfl
  home := rfl
  heap := passes.heap
  recorded := passes.recorded

end Passes

namespace Ready

theorem visited (ready : Ready base ctx home r) (part : Part) :
    Passes base r (r.visited part) where
  context := rfl
  home := rfl
  heap := .refl _ _
  recorded visit mem := by
    rcases List.mem_append.mp mem with old | new
    · exact ready.recorded visit old
    · obtain rfl := List.mem_singleton.mp new
      refine ⟨⟨?_, ?_, ?_⟩, .refl _ _⟩
      · rw [ready.inContext]
        exact ready.inside
      · rw [ready.inContext, ready.atHome]
        exact ready.outermost
      · rw [ready.atHome]
        exact ready.younger

/-- In a new scope inside the active one. -/
theorem child (ready : Ready base ctx home r) (b : Bindings Ty) (returns : Option Ty) :
    Ready base { ctx with scope := r.heap.size, returns := returns } home
      ((r.withHeap (r.heap.child ctx.scope b).2).moved
        { ctx with scope := r.heap.size, returns := returns } home) where
  inContext := rfl
  atHome := rfl
  inside := Heap.lt_size_child r.heap ctx.scope b
  outermost := by
    show (r.heap.child ctx.scope b).2.outermost r.heap.size = _
    rw [Heap.outermost_child ready.inside b]
    exact ready.outermost
  older := Nat.lt_trans ready.older (Heap.lt_size_child r.heap ctx.scope b)
  younger := ready.younger
  recorded := (Passes.withHeap ready.recorded (.child _ r.heap ctx.scope b)).recorded

/-- In the members of an object that has been made in the meantime. -/
theorem members (ready : Ready base ctx home r) (inside : m < r.heap.size)
    (root : r.heap.parent? m = none) (younger : base < m) {inner : Context}
    (scope : inner.scope = m) : Ready base inner (some m) (r.moved inner (some m)) where
  inContext := rfl
  atHome := rfl
  inside := by
    rw [scope]
    exact inside
  outermost := by
    rw [scope]
    exact Heap.outermost_of_no_parent root
  older := ready.older
  younger _ same := Option.some.inj same ▸ younger
  recorded := ready.recorded

end Ready

end Tour

/-! ## Rules -/

/-- From `r` on, the step `x` of a tour does what the step `y` of the checker does. Wherever it
ends, it is back in its context and at its home, and has recorded nothing but visits in their
places. -/
def Tours (base : ScopeId) {α : Type} (x : Toured α) (y : Check α) (r : Tour) : Prop :=
  match x r with
  | .ok a r' => y r.heap = .ok a r'.heap ∧ r.Passes base r'
  | .error fault r' => y r.heap = .error fault r'.heap ∧ r.Passes base r'

namespace Tours

open Tour

variable {base s : ScopeId} {α β : Type} {x : Toured α} {y : Check α} {f : α → Toured β}
  {g : α → Check β} {r r' : Tour} {ctx inner : Context} {home home' : Option ScopeId}

theorem of_ok {a : α} (tour : x r = .ok a r') (result : y r.heap = .ok a r'.heap)
    (passes : r.Passes base r') : Tours base x y r := by
  unfold Tours
  rw [tour]
  exact ⟨result, passes⟩

theorem of_error {fault : Located CheckError} (tour : x r = .error fault r')
    (result : y r.heap = .error fault r'.heap) (passes : r.Passes base r') : Tours base x y r := by
  unfold Tours
  rw [tour]
  exact ⟨result, passes⟩

theorem cases (tours : Tours base x y r) :
    (∃ a r', x r = .ok a r' ∧ y r.heap = .ok a r'.heap ∧ r.Passes base r') ∨
      ∃ fault r', x r = .error fault r' ∧ y r.heap = .error fault r'.heap ∧ r.Passes base r' := by
  unfold Tours at tours
  split at tours
  case h_1 a r' tour => exact Or.inl ⟨a, r', tour, tours⟩
  case h_2 fault r' tour => exact Or.inr ⟨fault, r', tour, tours⟩

/-- A step that goes on from a state to which it has come. -/
theorem after {z : Toured α} {u : Check α} (passes : r.Passes base r') (tour : x r = z r')
    (heap : y r.heap = u r'.heap) (tours : Tours base z u r') : Tours base x y r := by
  rcases tours.cases with ⟨a, r₁, ended, result, more⟩ | ⟨fault, r₁, ended, result, more⟩
  · exact .of_ok (tour.trans ended) (heap.trans result) (passes.trans more)
  · exact .of_error (tour.trans ended) (heap.trans result) (passes.trans more)

theorem bind (first : Tours base x y r)
    (second : ∀ a r', r.Passes base r' → Tours base (f a) (g a) r') :
    Tours base (x >>= f) (y >>= g) r := by
  rcases first.cases with ⟨a, r₁, ended, result, passes⟩ | ⟨fault, r₁, ended, result, passes⟩
  · refine .after passes ?_ ?_ (second a r₁ passes)
    · simp only [Bind.bind, EStateM.bind, ended]
    · simp only [Bind.bind, EStateM.bind, result]
  · have tour : (x >>= f) r = .error fault r₁ := by
      simp only [Bind.bind, EStateM.bind, ended]
    have comes : (y >>= g) r.heap = .error fault r₁.heap := by
      simp only [Bind.bind, EStateM.bind, result]
    exact .of_error tour comes passes

theorem pure {a : α} (ready : Ready base ctx home r) :
    Tours base (Pure.pure a) (Pure.pure a) r := .of_ok rfl rfl (.refl ready.recorded)

theorem located {node : NodeRef} (tours : Tours base x y r) :
    Tours base (Toured.located node x) (Check.located node y) r := by
  rcases tours.cases with ⟨a, r₁, ended, result, passes⟩ | ⟨fault, r₁, ended, result, passes⟩
  · refine .of_ok (a := a) ?_ ?_ passes
    · rw [Toured.located, ended]
    · rw [Check.located, result]
  · have tour : Toured.located node x r = .error (fault.located node) r₁ := by
      rw [Toured.located, ended]
    have comes : Check.located node y r.heap = .error (fault.located node) r₁.heap := by
      rw [Check.located, result]
    exact .of_error tour comes passes

theorem visit_bind {part : Part} {f : Unit → Toured β} {z : Check β} (ready : Ready base ctx home r)
    (next : Ready base ctx home (r.visited part) → Tours base (f ()) z (r.visited part)) :
    Tours base (Toured.visit part >>= f) z r :=
  .after (ready.visited part) rfl rfl (next ((ready.visited part).ready ready))

/-- A step of the checker that adds nothing but names. -/
theorem lift (ready : Ready base ctx home r) (leaves : Check.Leaves Set.univ y) :
    Tours base (Toured.lift y) y r := by
  have keeps := leaves r.heap
  cases result : y r.heap with
  | ok a h =>
    rw [Check.after, result] at keeps
    have tour : Toured.lift y r = .ok a (r.withHeap h) := by
      rw [Toured.lift, Toured.here, result]
      rfl
    exact .of_ok tour result (.withHeap ready.recorded keeps)
  | error fault h =>
    rw [Check.after, result] at keeps
    have tour : Toured.lift y r = .error fault (r.withHeap h) := by
      rw [Toured.lift, Toured.here, result]
      rfl
    exact .of_error tour result (.withHeap ready.recorded keeps)

theorem define (ready : Ready base ctx home r) (target : ScopeId) (name : String) (t : Ty)
    (cause : CheckError) :
    Tours base (Toured.lift (Check.define target name t cause))
      (Check.define target name t cause) r :=
  lift ready ((Check.Leaves.define target name t cause).mono (Set.subset_univ _))

/-- A step of the checker in the present context. -/
theorem here {step : Context → Check α} (ready : Ready base ctx home r)
    (leaves : Check.Leaves Set.univ (step ctx)) : Tours base (Toured.here step) (step ctx) r := by
  cases ready.inContext
  exact lift ready leaves

/-- A question to the present context. -/
theorem here_bind {question : Context → α} {z : Check β} (ready : Ready base ctx home r)
    (next : Tours base (f (question ctx)) z r) :
    Tours base (Toured.here (fun ctx => Pure.pure (question ctx)) >>= f) z r := by
  cases ready.inContext
  exact next

/-- A step elsewhere, from which the check comes back. -/
theorem within (tours : Tours base x y (r.moved inner home')) :
    Tours base (Toured.within inner home' x) y r := by
  rcases tours.cases with ⟨a, r₁, ended, result, passes⟩ | ⟨fault, r₁, ended, result, passes⟩
  · have back : Toured.within inner home' x r = .ok a (r₁.moved r.context r.home) := by
      unfold Toured.within
      rw [show x { r with context := inner, home := home' } = .ok a r₁ from ended]
      rfl
    exact .of_ok back result passes.back
  · have back : Toured.within inner home' x r = .error fault (r₁.moved r.context r.home) := by
      unfold Toured.within
      rw [show x { r with context := inner, home := home' } = .error fault r₁ from ended]
      rfl
    exact .of_error back result passes.back

theorem root_bind {f : ScopeId → Toured β} {g : ScopeId → Check β}
    (ready : Ready base ctx home r)
    (next : r.Passes base (r.withHeap (r.heap.root .empty).2) →
      Tours base (f r.heap.size) (g r.heap.size) (r.withHeap (r.heap.root .empty).2)) :
    Tours base (Toured.lift Check.root >>= f) (Check.root >>= g) r := by
  have passes : r.Passes base (r.withHeap (r.heap.root .empty).2) :=
    .withHeap ready.recorded (.root _ _ _)
  exact .after passes rfl rfl (next passes)

/-- A block in a new scope inside the active one. -/
theorem enterChild {b : Bindings Ty} (returns : Option Ty) {y : ScopeId → Check α}
    (ready : Ready base ctx home r)
    (body : ∀ {s : ScopeId} {r : Tour},
      Ready base { ctx with scope := s, returns := returns.or ctx.returns } home r →
        Tours base x (y s) r) :
    Tours base (Toured.enterChild b returns x) (Check.child ctx.scope b >>= y) r := by
  cases ready.inContext
  cases ready.atHome
  have passes : r.Passes base (r.withHeap (r.heap.child r.context.scope b).2) :=
    .withHeap ready.recorded (.child _ _ _ _)
  have new : (r.heap.child r.context.scope b).1 = r.heap.size := Heap.child_fst _ _ _
  refine .after (z := Toured.within { r.context with
    scope := r.heap.size, returns := returns.or r.context.returns } r.home x)
    (u := y r.heap.size) passes ?_ ?_ (.within (body (ready.child b _)))
  · rw [← new]
    rfl
  · rw [← new]
    rfl

/-- The methods of an object, in its members. -/
theorem enterMembers {m : ScopeId} (ready : Ready base ctx home r) (inside : m < r.heap.size)
    (root : r.heap.parent? m = none) (younger : base < m)
    (body : ∀ {r : Tour}, Ready base ⟨m, some (ctx.annotations.getD ctx.scope), none⟩ (some m) r →
      Tours base x y r) : Tours base (Toured.enterMembers m x) y r := by
  cases ready.inContext
  exact within (body (ready.members inside root younger rfl))

end Tours

/-! ## The walk -/

namespace Toured

open Tour Check

variable {base : ScopeId} {r : Tour} {ctx : Context} {home : Option ScopeId}

/-! ### One lemma for each kind of statement with several parts -/

section Kinds

variable {id : NodeId}

/-- Each branch is checked in a scope of its own, and what was active before is active after it. -/
theorem ifElse_tours {condition : Expr} {thenBody elseBody : List Stmt}
    (conditionTours : ∀ {r : Tour}, Ready base ctx home r →
      Tours base (expr condition) (Check.expr ctx condition) r)
    (thenTours : ∀ {s : ScopeId} {r : Tour}, Ready base { ctx with scope := s } home r →
      Tours base (block thenBody) (Check.block { ctx with scope := s } thenBody) r)
    (elseTours : ∀ {s : ScopeId} {r : Tour}, Ready base { ctx with scope := s } home r →
      Tours base (block elseBody) (Check.block { ctx with scope := s } elseBody) r)
    (ready : Ready base ctx home r) :
    Tours base (stmtKind id (.ifElse condition thenBody elseBody))
      (Check.stmtKind ctx id (.ifElse condition thenBody elseBody)) r := by
  rw [stmtKind, Check.stmtKind]
  refine .bind (conditionTours ready) fun c r₁ passes => ?_
  have ready₁ := passes.ready ready
  -- What follows the test of the condition, written once for both of its outcomes.
  have branches : ∀ {r₂ : Tour}, Ready base ctx home r₂ → Tours base
      (do
        let thenBody ← enterChild .empty none (block thenBody)
        let elseBody ← enterChild .empty none (block elseBody)
        return Typed.StmtKind.ifElse c thenBody elseBody)
      (do
        let thenBody ← child ctx.scope .empty >>= fun s =>
          Check.block { ctx with scope := s } thenBody
        let elseBody ← child ctx.scope .empty >>= fun s =>
          Check.block { ctx with scope := s } elseBody
        return Typed.StmtKind.ifElse c thenBody elseBody) r₂ := by
    intro r₂ ready₂
    refine .bind (.enterChild none ready₂ fun ready => thenTours ready) fun _ r₃ passes => ?_
    have ready₃ := passes.ready ready₂
    exact .bind (.enterChild none ready₃ fun ready => elseTours ready)
      fun _ r₄ passes => .pure (passes.ready ready₃)
  by_cases refused : (!BinaryOp.isBooleanLike c.ty) = true
  · simp only [if_pos refused]
    exact .bind (.lift ready₁ (.fail _)) fun _ r₂ passes => branches (passes.ready ready₁)
  · simp only [if_neg refused]
    exact .after (.refl ready₁.recorded) rfl rfl (branches ready₁)

theorem assignVariable_tours {target : NodeRef} {name : String} {value : Expr}
    (valueTours : ∀ {r : Tour}, Ready base ctx home r →
      Tours base (expr value) (Check.expr ctx value) r) (ready : Ready base ctx home r) :
    Tours base (stmtKind id (.assign ⟨target, .variable name⟩ value))
      (Check.stmtKind ctx id (.assign ⟨target, .variable name⟩ value)) r := by
  rw [stmtKind, Check.stmtKind]
  refine .bind (.here ready (.located _ (.resolve _ _ _))) fun ty r₁ passes => ?_
  have ready₁ := passes.ready ready
  refine .bind (valueTours ready₁) fun value r₂ passes => ?_
  have ready₂ := passes.ready ready₁
  exact .bind (.lift ready₂ (.requireSubtype _ _ _)) fun _ r₃ passes =>
    .pure (passes.ready ready₂)

theorem assignProperty_tours {target : NodeRef} {receiver : Expr} {name : String} {value : Expr}
    (receiverTours : ∀ {r : Tour}, Ready base ctx home r →
      Tours base (expr receiver) (Check.expr ctx receiver) r)
    (valueTours : ∀ {r : Tour}, Ready base ctx home r →
      Tours base (expr value) (Check.expr ctx value) r) (ready : Ready base ctx home r) :
    Tours base (stmtKind id (.assign ⟨target, .property receiver name⟩ value))
      (Check.stmtKind ctx id (.assign ⟨target, .property receiver name⟩ value)) r := by
  rw [stmtKind, Check.stmtKind]
  refine .bind (receiverTours ready) fun receiver r₁ passes => ?_
  have ready₁ := passes.ready ready
  refine .bind (.lift ready₁ (.located _ (.rule _))) fun ty r₂ passes => ?_
  have ready₂ := passes.ready ready₁
  refine .bind (valueTours ready₂) fun value r₃ passes => ?_
  have ready₃ := passes.ready ready₂
  exact .bind (.lift ready₃ (.requireSubtype _ _ _)) fun _ r₄ passes =>
    .pure (passes.ready ready₃)

end Kinds

mutual

theorem expr_tours : ∀ (e : Expr) {ctx : Context} {home : Option ScopeId} {r : Tour},
    Ready base ctx home r → Tours base (expr e) (Check.expr ctx e) r
  | ⟨node, kind⟩, ctx, home, r, ready => by
    rw [expr, Check.expr]
    refine .visit_bind ready fun ready => .located (.bind (exprKind_tours kind ready) ?_)
    exact fun _ r₁ passes => .pure (passes.ready ready)

theorem exprKind_tours : ∀ (e : ExprKind) {ctx : Context} {home : Option ScopeId} {r : Tour},
    Ready base ctx home r → Tours base (exprKind e) (Check.exprKind ctx e) r
  | .literal value, ctx, home, r, ready => by
    rw [exprKind, Check.exprKind]
    exact .pure ready
  | .group inner, ctx, home, r, ready => by
    rw [exprKind, Check.exprKind]
    exact .bind (expr_tours inner ready) fun _ r₁ passes => .pure (passes.ready ready)
  | .binary op left right, ctx, home, r, ready => by
    rw [exprKind, Check.exprKind]
    refine .bind (expr_tours left ready) fun l r₁ passes => ?_
    have ready₁ := passes.ready ready
    refine .bind (expr_tours right ready₁) fun u r₂ passes => ?_
    have ready₂ := passes.ready ready₁
    exact .bind (.lift ready₂ (.rule _)) fun _ r₃ passes => .pure (passes.ready ready₂)
  | .variable name, ctx, home, r, ready => by
    rw [exprKind, Check.exprKind]
    exact .bind (.here ready (.resolve _ _ _)) fun _ r₁ passes => .pure (passes.ready ready)
  | .property receiver name, ctx, home, r, ready => by
    rw [exprKind, Check.exprKind]
    refine .bind (expr_tours receiver ready) fun t r₁ passes => ?_
    have ready₁ := passes.ready ready
    exact .bind (.lift ready₁ (.rule _)) fun _ r₂ passes => .pure (passes.ready ready₁)
  | .call name arguments, ctx, home, r, ready => by
    rw [exprKind, Check.exprKind]
    refine .bind (.here ready (.resolve _ _ _)) fun callee r₁ passes => ?_
    have ready₁ := passes.ready ready
    cases callee with
    | function params returns =>
      refine .bind (.lift ready₁ (.requireCount _ _ _)) fun _ r₂ passes => ?_
      have ready₂ := passes.ready ready₁
      exact .bind (argumentList_tours name arguments 0 params ready₂) fun _ r₃ passes =>
        .pure (passes.ready ready₂)
    | prim p => exact .lift ready₁ (.fail _)
    | object n members => exact .lift ready₁ (.fail _)
  | .invoke receiver name arguments, ctx, home, r, ready => by
    rw [exprKind, Check.exprKind]
    refine .bind (expr_tours receiver ready) fun t r₁ passes => ?_
    have ready₁ := passes.ready ready
    refine .bind (.lift ready₁ (.rule _)) fun callee r₂ passes => ?_
    have ready₂ := passes.ready ready₁
    cases callee with
    | function params returns =>
      refine .bind (.lift ready₂ (.requireCount _ _ _)) fun _ r₃ passes => ?_
      have ready₃ := passes.ready ready₂
      exact .bind (argumentList_tours name arguments 0 _ ready₃) fun _ r₄ passes =>
        .pure (passes.ready ready₃)
    | object n members => exact .lift ready₂ (.fail _)
    | prim p =>
      cases p with
      | dynamic =>
        exact .bind (exprs_tours arguments ready₂) fun _ r₃ passes => .pure (passes.ready ready₂)
      | _ => exact .lift ready₂ (.fail _)
  | .object name fieldList methodList, ctx, home, r, ready => by
    rw [exprKind, Check.exprKind]
    refine .root_bind ready fun made => ?_
    have ready₁ := made.ready ready
    refine .bind (fields_tours r.heap.size fieldList ready₁) fun _ r₂ passes => ?_
    have ready₂ := passes.ready ready₁
    have inside : r.heap.size < r₂.heap.size :=
      Nat.lt_of_lt_of_le (Heap.lt_size_root r.heap .empty) passes.heap.size_le
    -- The members of the object are a new scope, and nothing has been put around it.
    have root : r₂.heap.parent? r.heap.size = none := by
      rw [passes.heap.parent _ (Heap.lt_size_root r.heap .empty)]
      exact Heap.parent?_root_self r.heap .empty
    refine .bind (.enterMembers ready₂ inside root ready.older fun ready =>
      methods_tours _ methodList ready) fun _ r₃ passes => ?_
    exact .pure (passes.ready ready₂)

theorem exprs_tours : ∀ (es : List Expr) {ctx : Context} {home : Option ScopeId} {r : Tour},
    Ready base ctx home r → Tours base (exprs es) (Check.exprs ctx es) r
  | [], ctx, home, r, ready => by
    rw [exprs, Check.exprs]
    exact .pure ready
  | e :: es, ctx, home, r, ready => by
    rw [exprs, Check.exprs]
    refine .bind (expr_tours e ready) fun _ r₁ passes => ?_
    have ready₁ := passes.ready ready
    exact .bind (exprs_tours es ready₁) fun _ r₂ passes => .pure (passes.ready ready₁)

theorem argumentList_tours (callee : String) : ∀ (es : List Expr) (index : Nat) (params : List Ty)
    {ctx : Context} {home : Option ScopeId} {r : Tour}, Ready base ctx home r →
      Tours base (argumentList callee index params es)
        (Check.argumentList ctx callee index params es) r
  | e :: es, index, param :: params, ctx, home, r, ready => by
    rw [argumentList, Check.argumentList]
    refine .bind (expr_tours e ready) fun t r₁ passes => ?_
    have ready₁ := passes.ready ready
    refine .bind (.lift ready₁ (.located _ (.requireSubtype _ _ _))) fun _ r₂ passes => ?_
    have ready₂ := passes.ready ready₁
    exact .bind (argumentList_tours callee es (index + 1) params ready₂) fun _ r₃ passes =>
      .pure (passes.ready ready₂)
  | [], _, _, ctx, home, r, ready => by
    rw [argumentList, Check.argumentList]
    · exact .pure ready
    all_goals simp
  | _ :: _, _, [], ctx, home, r, ready => by
    rw [argumentList, Check.argumentList]
    · exact .pure ready
    all_goals simp

theorem binding_tours (id : NodeId) (target : ScopeId) : ∀ (b : Binding) {ctx : Context}
    {home : Option ScopeId} {r : Tour}, Ready base ctx home r →
      Tours base (binding id target b) (Check.binding ctx id target b) r
  | ⟨name, ty, none⟩, ctx, home, r, ready => by
    rw [binding, Check.binding]
    refine .bind (.here ready (.annotated? _ _)) fun _ r₁ passes => ?_
    have ready₁ := passes.ready ready
    exact .bind (.define ready₁ _ _ _ _) fun _ r₂ passes => .pure (passes.ready ready₁)
  | ⟨name, ty, some e⟩, ctx, home, r, ready => by
    rw [binding, Check.binding]
    refine .bind (.here ready (.annotated? _ _)) fun _ r₁ passes => ?_
    have ready₁ := passes.ready ready
    refine .bind (expr_tours e ready₁) fun value r₂ passes => ?_
    have ready₂ := passes.ready ready₁
    refine .bind (.lift ready₂ (.located _ (.requireSubtype _ _ _))) fun _ r₃ passes => ?_
    have ready₃ := passes.ready ready₂
    exact .bind (.define ready₃ _ _ _ _) fun _ r₄ passes => .pure (passes.ready ready₃)

theorem fields_tours (target : ScopeId) : ∀ (fs : List Field) {ctx : Context}
    {home : Option ScopeId} {r : Tour}, Ready base ctx home r →
      Tours base (fields target fs) (Check.fields ctx target fs) r
  | [], ctx, home, r, ready => by
    rw [fields, Check.fields]
    exact .pure ready
  | ⟨node, b⟩ :: rest, ctx, home, r, ready => by
    rw [fields, Check.fields]
    refine .bind (.located (binding_tours node.id target b ready)) fun _ r₁ passes => ?_
    have ready₁ := passes.ready ready
    exact .bind (fields_tours target rest ready₁) fun _ r₂ passes => .pure (passes.ready ready₁)

theorem definition_tours (id : NodeId) (this : Option Ty) : ∀ (d : Definition) {ctx : Context}
    {home : Option ScopeId} {r : Tour}, Ready base ctx home r →
      Tours base (definition id this d) (Check.definition ctx id this d) r
  | ⟨name, list, returns, body⟩, ctx, home, r, ready => by
    rw [definition, Check.definition]
    refine .bind (.here ready (.annotationOrDynamic _ _)) fun returns r₁ passes => ?_
    have ready₁ := passes.ready ready
    refine .bind (.here ready₁ (.params _ _ _)) fun list r₂ passes => ?_
    have ready₂ := passes.ready ready₁
    have adds := Check.Leaves.define ctx.scope name (.function (list.map Typed.Param.ty) returns)
      (.functionDefined name)
    refine .bind (.here ready₂ (adds.mono (Set.subset_univ _))) fun _ r₃ passes => ?_
    have ready₃ := passes.ready ready₂
    refine .bind (.lift ready₃ (.bodyBindings _ _)) fun bound r₄ passes => ?_
    have ready₄ := passes.ready ready₃
    -- The new scope belongs to the body, which is taken in it as a whole.
    rw [← bind_assoc]
    exact .bind (.enterChild (some returns) ready₄ fun ready => block_tours body ready)
      fun _ r₅ passes => .pure (passes.ready ready₄)

theorem methods_tours (this : Ty) : ∀ (ms : List Method) {ctx : Context} {home : Option ScopeId}
    {r : Tour}, Ready base ctx home r → Tours base (methods this ms) (Check.methods ctx this ms) r
  | [], ctx, home, r, ready => by
    rw [methods, Check.methods]
    exact .pure ready
  | ⟨node, d⟩ :: rest, ctx, home, r, ready => by
    rw [methods, Check.methods]
    refine .bind (.located (definition_tours node.id (some this) d ready)) fun _ r₁ passes => ?_
    have ready₁ := passes.ready ready
    exact .bind (methods_tours this rest ready₁) fun _ r₂ passes => .pure (passes.ready ready₁)

theorem stmt_tours : ∀ (x : Stmt) {ctx : Context} {home : Option ScopeId} {r : Tour},
    Ready base ctx home r → Tours base (stmt x) (Check.stmt ctx x) r
  | ⟨node, kind⟩, ctx, home, r, ready => by
    rw [stmt, Check.stmt]
    refine .visit_bind ready fun ready => .located (.bind (stmtKind_tours node.id kind ready) ?_)
    exact fun _ r₁ passes => .pure (passes.ready ready)

theorem stmtKind_tours (id : NodeId) : ∀ (x : StmtKind) {ctx : Context} {home : Option ScopeId}
    {r : Tour}, Ready base ctx home r → Tours base (stmtKind id x) (Check.stmtKind ctx id x) r
  | .letVar b, ctx, home, r, ready => by
    rw [stmtKind, Check.stmtKind]
    exact .here_bind ready (.bind (binding_tours id ctx.scope b ready) fun _ r₁ passes =>
      .pure (passes.ready ready))
  | .defFun d, ctx, home, r, ready => by
    rw [stmtKind, Check.stmtKind]
    exact .bind (definition_tours id none d ready) fun _ r₁ passes => .pure (passes.ready ready)
  | .ifElse condition thenBody elseBody, ctx, home, r, ready =>
    ifElse_tours (expr_tours condition) (block_tours thenBody) (block_tours elseBody) ready
  | .forEach name iterable body, ctx, home, r, ready => by
    rw [stmtKind, Check.stmtKind]
    refine .bind (expr_tours iterable ready) fun i r₁ passes => ?_
    have ready₁ := passes.ready ready
    refine .bind (.lift ready₁ (.requireSubtype _ _ _)) fun _ r₂ passes => ?_
    have ready₂ := passes.ready ready₁
    rw [← bind_assoc]
    exact .bind (.enterChild none ready₂ fun ready => block_tours body ready)
      fun _ r₃ passes => .pure (passes.ready ready₂)
  | .returns value, ctx, home, r, ready => by
    rw [stmtKind, Check.stmtKind]
    refine .here_bind ready ?_
    cases ctx.returns with
    | none => exact .lift ready (.fail _)
    | some expected =>
      cases value with
      | none =>
        exact .bind (.lift ready (.requireSubtype _ _ _)) fun _ r₁ passes =>
          .pure (passes.ready ready)
      | some e =>
        refine .bind (expr_tours e ready) fun value r₁ passes => ?_
        have ready₁ := passes.ready ready
        exact .bind (.lift ready₁ (.requireSubtype _ _ _)) fun _ r₂ passes =>
          .pure (passes.ready ready₁)
  | .expr e, ctx, home, r, ready => by
    rw [stmtKind, Check.stmtKind]
    exact .bind (expr_tours e ready) fun _ r₁ passes => .pure (passes.ready ready)
  | .assign ⟨target, kind⟩ value, ctx, home, r, ready => by
    cases kind with
    | «variable» name => exact assignVariable_tours (expr_tours value) ready
    | property receiver name =>
      exact assignProperty_tours (expr_tours receiver) (expr_tours value) ready
    | _ =>
      rw [stmtKind, Check.stmtKind]
      · exact .lift ready (.failAt _ _)
      all_goals simp

theorem block_tours : ∀ (xs : List Stmt) {ctx : Context} {home : Option ScopeId} {r : Tour},
    Ready base ctx home r → Tours base (block xs) (Check.block ctx xs) r
  | [], ctx, home, r, ready => by
    rw [block, Check.block]
    exact .pure ready
  | x :: rest, ctx, home, r, ready => by
    rw [block, Check.block]
    refine .bind (stmt_tours x ready) fun _ r₁ passes => ?_
    have ready₁ := passes.ready ready
    exact .bind (block_tours rest ready₁) fun _ r₂ passes => .pure (passes.ready ready₁)

end

end Toured

/-! ## From the outside -/

namespace Tours

variable {base : ScopeId} {α : Type} {x : Toured α} {y : Check α} {r : Tour}

theorem forget (tours : Tours base x y r) : Toured.forget (x r) = y r.heap := by
  rcases tours.cases with ⟨a, r', ended, result, _⟩ | ⟨fault, r', ended, result, _⟩
  · rw [ended, result]
    rfl
  · rw [ended, result]
    rfl

theorem passes (tours : Tours base x y r) : r.Passes base (Toured.after x r) := by
  unfold Toured.after
  rcases tours.cases with ⟨a, r', ended, _, passes⟩ | ⟨fault, r', ended, _, passes⟩
  · rw [ended]
    exact passes
  · rw [ended]
    exact passes

theorem after_heap (tours : Tours base x y r) : (Toured.after x r).heap = Check.after y r.heap := by
  unfold Toured.after Check.after
  rcases tours.cases with ⟨a, r', ended, result, _⟩ | ⟨fault, r', ended, result, _⟩
  · rw [ended, result]
  · rw [ended, result]

end Tours

/-- A check can begin in any scope that exists. -/
theorem Tour.ready_start {ctx : Context} {h : Heap Ty} (inside : ctx.scope < h.size) :
    Ready (h.outermost ctx.scope) ctx none (start ctx h) where
  inContext := rfl
  atHome := rfl
  inside := inside
  outermost := rfl
  older := Nat.lt_of_le_of_lt (h.outermost_le ctx.scope) inside
  younger _ same := by cases same
  recorded _ mem := by cases mem

end GradualScript
