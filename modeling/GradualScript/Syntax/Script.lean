/-
# GradualScript.Syntax.Script -- the syntax tree of a script

A script is a list of statements. The checker and the evaluator both walk this tree, each on its
own, and neither changes it. Declarations come in two places: as statements and as members of an
object expression, so a binding (`LET`) and a definition (`DEF`) are types of their own and do not
know which node holds them.
-/

import GradualScript.Decimal.Basic
import GradualScript.Syntax.Node
import GradualScript.Syntax.Operator

namespace GradualScript

/-- A constant. -/
inductive Literal where
  | nil
  | boolean (value : Bool)
  | integer (value : Int)
  | decimal (value : Decimal)
  | character (value : Char)
  | string (value : String)
deriving DecidableEq, Repr, Inhabited

/-- A parameter of a definition, with the name of its type if it is annotated. -/
structure Param where
  name : String
  ty : Option String
deriving DecidableEq, Repr, Inhabited

mutual

/-- An expression: its node, and what stands there. -/
structure Expr where
  node : NodeRef
  kind : ExprKind

inductive ExprKind where
  | literal (value : Literal)
  | group (inner : Expr)
  | binary (op : BinaryOp) (left right : Expr)
  | variable (name : String)
  | property (receiver : Expr) (name : String)
  /-- A call of a function by its name. -/
  | call (name : String) (arguments : List Expr)
  /-- A call of a method of the receiver. -/
  | invoke (receiver : Expr) (name : String) (arguments : List Expr)
  | object (name : Option String) (fields : List Field) (methods : List Method)

/-- `LET name: ty = value`, with the annotation and the initial value optional. -/
structure Binding where
  name : String
  ty : Option String
  value : Option Expr

/-- `DEF name(params): returns DO body END` -/
structure Definition where
  name : String
  params : List Param
  returns : Option String
  body : List Stmt

/-- A binding inside an object expression. -/
structure Field where
  node : NodeRef
  binding : Binding

/-- A definition inside an object expression. -/
structure Method where
  node : NodeRef
  definition : Definition

/-- A statement: its node, and what stands there. -/
structure Stmt where
  node : NodeRef
  kind : StmtKind

inductive StmtKind where
  | letVar (binding : Binding)
  | defFun (definition : Definition)
  | ifElse (condition : Expr) (thenBody elseBody : List Stmt)
  | forEach (name : String) (iterable : Expr) (body : List Stmt)
  | returns (value : Option Expr)
  | expr (expression : Expr)
  /-- `target = value`. Any expression may stand as the target of the tree; a target that is
  neither a variable nor a property is refused by both passes. -/
  | assign (target value : Expr)

end

/-- A whole script. -/
structure Script where
  statements : List Stmt

instance : Inhabited Expr := ⟨⟨default, .literal .nil⟩⟩

instance : Inhabited Stmt := ⟨⟨default, .returns none⟩⟩

instance : Inhabited Script := ⟨⟨[]⟩⟩

/-- The names of the parameters, in order. -/
def Definition.paramNames (d : Definition) : List String := d.params.map Param.name

end GradualScript
