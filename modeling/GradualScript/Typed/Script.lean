/-
# GradualScript.Typed.Script -- scripts with types

Checking turns a script into a typed script of the same shape. Every expression carries its type;
bindings, parameters, results and loop variables carry the types that their annotations stand for;
an assignment says whether it changes a variable or a property. Each node keeps the identity of
the node of the script that it was made from.
-/

import GradualScript.Syntax.Script
import GradualScript.Ty.Basic

namespace GradualScript.Typed

/-- A parameter with its type. -/
structure Param where
  name : String
  ty : Ty
deriving DecidableEq, Inhabited

mutual

/-- An expression with its type. -/
structure Expr where
  id : NodeId
  ty : Ty
  kind : ExprKind

inductive ExprKind where
  | literal (value : Literal)
  | group (inner : Expr)
  | binary (op : BinaryOp) (left right : Expr)
  | variable (name : String)
  | property (receiver : Expr) (name : String)
  | call (name : String) (arguments : List Expr)
  | invoke (receiver : Expr) (name : String) (arguments : List Expr)
  | object (name : Option String) (fields : List Binding) (methods : List Definition)

/-- A `LET` or a field with the type of its name: the annotated one, else that of its value, else
`Dynamic`. -/
structure Binding where
  id : NodeId
  name : String
  ty : Ty
  value : Option Expr

/-- A function or method. `returns` is `Dynamic` where no result is declared. -/
structure Definition where
  id : NodeId
  name : String
  params : List Param
  returns : Ty
  body : List Stmt

structure Stmt where
  id : NodeId
  kind : StmtKind

/-- What a statement does. Conditions and blocks carry no types of their own. -/
inductive StmtKind where
  | letVar (binding : Binding)
  | defFun (definition : Definition)
  | ifElse (condition : Expr) (thenBody elseBody : List Stmt)
  /-- `ty` is the type of the elements, to which `name` is bound. -/
  | forEach (name : String) (ty : Ty) (iterable : Expr) (body : List Stmt)
  | returns (value : Option Expr)
  | expr (expression : Expr)
  /-- `ty` is the type of the variable. -/
  | assignVariable (name : String) (ty : Ty) (value : Expr)
  /-- `ty` is the type of the property. -/
  | assignProperty (receiver : Expr) (name : String) (ty : Ty) (value : Expr)

end

/-- The function type that a definition binds its name to. -/
def Definition.ty (d : Definition) : Ty := .function (d.params.map Param.ty) d.returns

end GradualScript.Typed
