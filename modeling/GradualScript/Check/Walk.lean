/-
# GradualScript.Check.Walk -- the type checker

The checker walks a script, resolves its names against a heap of types and builds the typed script,
or stops at the first rule that is violated. What is ambient at a node (`Context`) is handed down
and never changed: the active scope, the scope in which annotations are resolved if that is another
one, and the declared result of the enclosing function. The heap is the only state; it is kept when
checking fails, so that a session can go on from what was defined before.

A definition is bound before its body is checked, so a body may call its own function. The members
of an object are defined into a scope without a parent: a method sees the members defined so far,
`this` and its parameters, and nothing of the script around the object. Its annotations are
resolved around the object all the same.
-/

import GradualScript.Ty.Operator
import GradualScript.Typed.Script

namespace GradualScript

/-- What is ambient at a node. -/
structure Context where
  /-- The active scope. -/
  scope : ScopeId
  /-- Where annotations are resolved, if not in the active scope. -/
  annotations : Option ScopeId := none
  /-- The declared result of the enclosing function; none at the top of a script. -/
  returns : Option Ty := none
deriving DecidableEq

/-- A step of the checker: it may change the heap of types, and may fail. -/
abbrev Check (α : Type) := EStateM (Located CheckError) (Heap Ty) α

namespace Check

/-- Stops with a cause that no node claims yet. -/
@[inline] def fail {α : Type} (cause : CheckError) : Check α := throw { cause := cause }

/-- Stops with a cause that belongs to `node`. -/
@[inline] def failAt {α : Type} (node : NodeRef) (cause : CheckError) : Check α :=
  throw ⟨cause, some (.of node)⟩

/-- Attributes the faults of a step to `node`, unless they belong to a node already. -/
@[inline] def located {α : Type} (node : NodeRef) (step : Check α) : Check α := fun h =>
  match step h with
  | .ok a h => .ok a h
  | .error fault h => .error (fault.located node) h

/-- A rule of typing as a step. -/
@[inline] def rule {α : Type} (result : Heap Ty → Except CheckError α) : Check α := fun h =>
  match result h with
  | .ok a => .ok a h
  | .error cause => .error { cause := cause } h

/-- A new scope inside `s`. -/
@[inline] def child (s : ScopeId) (bindings : Bindings Ty) : Check ScopeId := fun h =>
  let (t, h) := h.child s bindings
  .ok t h

/-- A new scope without a parent. -/
@[inline] def root : Check ScopeId := fun h =>
  let (t, h) := h.root .empty
  .ok t h

/-- Defines a name, or stops with `cause` if the scope binds it already. -/
@[inline] def define (s : ScopeId) (name : String) (t : Ty) (cause : CheckError) : Check Unit :=
  fun h => if h.binds s name then .error { cause := cause } h else .ok () (h.put s name t)

/-- The type that a name is bound to, or `cause`. -/
@[inline] def resolve (s : ScopeId) (name : String) (cause : CheckError) : Check Ty := fun h =>
  match h.resolve s name with
  | some t => .ok t h
  | none => .error { cause := cause } h

/-- The type that an annotation stands for. -/
def annotation (ctx : Context) (name : String) : Check Ty :=
  resolve (ctx.annotations.getD ctx.scope) name (.undefinedType name)

/-- The type that an optional annotation stands for; without one, `Dynamic`. -/
def annotationOrDynamic (ctx : Context) : Option String → Check Ty
  | none => pure .dynamic
  | some name => annotation ctx name

/-- The type that an optional annotation stands for. -/
def annotation? (ctx : Context) : Option String → Check (Option Ty)
  | none => pure none
  | some name => some <$> annotation ctx name

/-- Stops with `cause` unless `sub` is a subtype of `sup`. -/
def requireSubtype (sub sup : Ty) (cause : CheckError) : Check Unit := fun h =>
  if sub.isSubtype h sup then .ok () h else .error { cause := cause } h

/-- Stops unless `callee` is given as many arguments as it has parameters. -/
def requireCount (callee : String) (expected found : Nat) : Check Unit :=
  if found = expected then pure () else fail (.argumentCount callee expected found)

/-- The type of a member of a receiver of type `receiver`. -/
def memberType (h : Heap Ty) (receiver : Ty) (name : String) (use : MemberUse) :
    Except CheckError Ty :=
  match receiver with
  | .object _ members =>
    match Ty.lookup h members name with
    | some t => .ok t
    | none => .error (.undefinedMember use name receiver)
  | .dynamic => .ok .dynamic
  | _ => .error (.noMembers use receiver)

/-- The parameters of a definition with their types. A name may stand there once. -/
def params (ctx : Context) : List String → List Param → Check (List Typed.Param)
  | _, [] => pure []
  | seen, param :: rest => do
    if param.name ∈ seen then fail (.duplicateParameter param.name)
    let ty ← annotationOrDynamic ctx param.ty
    return ⟨param.name, ty⟩ :: (← params ctx (param.name :: seen) rest)

/-- What the body of a definition sees besides the names around it: its parameters, and in a
method `this`, which no parameter of a method may be called. -/
def bodyBindings (this : Option Ty) (params : List Typed.Param) : Check (Bindings Ty) :=
  let bound := params.map fun p => (p.name, p.ty)
  match this with
  | none => pure (.ofList bound)
  | some this =>
    if params.any fun p => p.name == "this" then fail (.duplicateParameter "this")
    else pure (.ofList (("this", this) :: bound))

/-! ## Expressions and statements -/

mutual

def expr (ctx : Context) : Expr → Check Typed.Expr
  | ⟨node, kind⟩ => located node do
    let (kind, ty) ← exprKind ctx kind
    return ⟨node.id, ty, kind⟩

def exprKind (ctx : Context) : ExprKind → Check (Typed.ExprKind × Ty)
  | .literal value => pure (.literal value, value.ty)
  | .group inner => do
    let inner ← expr ctx inner
    return (.group inner, inner.ty)
  | .binary op left right => do
    let left ← expr ctx left
    let right ← expr ctx right
    let ty ← rule fun h => op.type h left.ty right.ty
    return (.binary op left right, ty)
  | .variable name => do
    let ty ← resolve ctx.scope name (.undefinedVariable name)
    return (.variable name, ty)
  | .property receiver name => do
    let receiver ← expr ctx receiver
    let ty ← rule fun h => memberType h receiver.ty name .property
    return (.property receiver name, ty)
  | .call name arguments => do
    match ← resolve ctx.scope name (.undefinedFunction name) with
    | .function params returns =>
      requireCount name params.length arguments.length
      let arguments ← argumentList ctx name 0 params arguments
      return (.call name arguments, returns)
    | found => fail (.notFunction name found)
  | .invoke receiver name arguments => do
    let receiver ← expr ctx receiver
    match ← rule fun h => memberType h receiver.ty name .method with
    | .dynamic =>
      let arguments ← exprs ctx arguments
      return (.invoke receiver name arguments, .dynamic)
    | .function params returns =>
      requireCount name params.length arguments.length
      let arguments ← argumentList ctx name 0 params arguments
      return (.invoke receiver name arguments, returns)
    | found => fail (.notMethod name found)
  | .object name fieldList methodList => do
    let members ← root
    let fieldList ← fields ctx members fieldList
    let this := Ty.object name members
    let inside : Context :=
      { scope := members, annotations := some (ctx.annotations.getD ctx.scope), returns := none }
    let methodList ← methods inside this methodList
    return (.object name fieldList methodList, this)

def exprs (ctx : Context) : List Expr → Check (List Typed.Expr)
  | [] => pure []
  | e :: es => do
    let e ← expr ctx e
    return e :: (← exprs ctx es)

/-- The arguments of a call of `callee` from position `index` on, each of a subtype of its
parameter's type. -/
def argumentList (ctx : Context) (callee : String) :
    Nat → List Ty → List Expr → Check (List Typed.Expr)
  | index, param :: params, e :: es => do
    let argument ← expr ctx e
    located e.node
      (requireSubtype argument.ty param (.argumentMismatch index callee param argument.ty))
    return argument :: (← argumentList ctx callee (index + 1) params es)
  | _, _, _ => pure []

/-- A binding at node `id`, whose name is defined in `target`. -/
def binding (ctx : Context) (id : NodeId) (target : ScopeId) : Binding → Check Typed.Binding
  | ⟨name, ty, value⟩ => do
    let declared ← annotation? ctx ty
    match value with
    | none =>
      let ty := declared.getD .dynamic
      define target name ty (.variableDefined name)
      return ⟨id, name, ty, none⟩
    | some e =>
      let value ← expr ctx e
      let ty := declared.getD value.ty
      located e.node (requireSubtype value.ty ty (.mismatch ty value.ty))
      define target name ty (.variableDefined name)
      return ⟨id, name, ty, some value⟩

def fields (ctx : Context) (target : ScopeId) : List Field → Check (List Typed.Binding)
  | [] => pure []
  | ⟨node, b⟩ :: rest => do
    let b ← located node (binding ctx node.id target b)
    return b :: (← fields ctx target rest)

/-- A definition at node `id`; `this` is the type of the object around a method. -/
def definition (ctx : Context) (id : NodeId) (this : Option Ty) :
    Definition → Check Typed.Definition
  | ⟨name, paramList, returns, body⟩ => do
    let returns ← annotationOrDynamic ctx returns
    let paramList ← params ctx [] paramList
    define ctx.scope name (.function (paramList.map Typed.Param.ty) returns) (.functionDefined name)
    let bindings ← bodyBindings this paramList
    let scope ← child ctx.scope bindings
    let body ← block { ctx with scope := scope, returns := some returns } body
    return ⟨id, name, paramList, returns, body⟩

def methods (ctx : Context) (this : Ty) : List Method → Check (List Typed.Definition)
  | [] => pure []
  | ⟨node, d⟩ :: rest => do
    let d ← located node (definition ctx node.id (some this) d)
    return d :: (← methods ctx this rest)

def stmt (ctx : Context) : Stmt → Check Typed.Stmt
  | ⟨node, kind⟩ => located node do
    let kind ← stmtKind ctx node.id kind
    return ⟨node.id, kind⟩

def stmtKind (ctx : Context) (id : NodeId) : StmtKind → Check Typed.StmtKind
  | .letVar b => do return .letVar (← binding ctx id ctx.scope b)
  | .defFun d => do return .defFun (← definition ctx id none d)
  | .ifElse condition thenBody elseBody => do
    let condition ← expr ctx condition
    if !BinaryOp.isBooleanLike condition.ty then fail (.conditionNotBoolean condition.ty)
    let thenScope ← child ctx.scope .empty
    let thenBody ← block { ctx with scope := thenScope } thenBody
    let elseScope ← child ctx.scope .empty
    let elseBody ← block { ctx with scope := elseScope } elseBody
    return .ifElse condition thenBody elseBody
  | .forEach name iterable body => do
    let iterable ← expr ctx iterable
    requireSubtype iterable.ty .iterable (.notIterable iterable.ty)
    let ty := if iterable.ty.isDynamic then Ty.dynamic else Ty.integer
    let scope ← child ctx.scope (.ofList [(name, ty)])
    let body ← block { ctx with scope := scope } body
    return .forEach name ty iterable body
  | .returns value => do
    match ctx.returns with
    | none => fail .returnOutsideFunction
    | some expected =>
      match value with
      | none =>
        requireSubtype .nil expected (.returnMismatch expected .nil)
        return .returns none
      | some e =>
        let value ← expr ctx e
        requireSubtype value.ty expected (.returnMismatch expected value.ty)
        return .returns (some value)
  | .expr e => do return .expr (← expr ctx e)
  | .assign ⟨target, .variable name⟩ value => do
    let ty ← located target (resolve ctx.scope name (.undefinedVariable name))
    let value ← expr ctx value
    requireSubtype value.ty ty (.mismatch ty value.ty)
    return .assignVariable name ty value
  | .assign ⟨target, .property receiver name⟩ value => do
    let receiver ← expr ctx receiver
    let ty ← located target (rule fun h => memberType h receiver.ty name .property)
    let value ← expr ctx value
    requireSubtype value.ty ty (.mismatch ty value.ty)
    return .assignProperty receiver name ty value
  | .assign target _ => failAt target.node .badTarget

def block (ctx : Context) : List Stmt → Check (List Typed.Stmt)
  | [] => pure []
  | s :: rest => do
    let s ← stmt ctx s
    return s :: (← block ctx rest)

end

end Check

end GradualScript
