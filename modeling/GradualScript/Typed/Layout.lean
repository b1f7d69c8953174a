/-
# GradualScript.Typed.Layout -- the debugging view of a typed script

Every node of a typed script as a record with its number and its parts, in the order in which the
parts are declared. An expression shows what stands there before its type.
-/

import GradualScript.Decimal.Text
import GradualScript.Ty.Layout
import GradualScript.Typed.Script

namespace GradualScript

open Text (Layout)

/-- The number of a node. -/
def NodeId.layout (id : NodeId) : Layout := .tuple "NodeId" [.number id.number]

/-- A constant, tagged with its kind. -/
def Literal.layout : Literal → Layout
  | .nil => .text "Nil"
  | .boolean b => .tuple "Boolean" [.boolean b]
  | .integer n => .tuple "Integer" [.text (toString n)]
  | .decimal d => .tuple "Decimal" [.text ("BigDecimal(\"" ++ d.exponentText ++ "\")")]
  | .character c => .tuple "Character" [.text (Text.quotedChar c)]
  | .string s => .tuple "String" [.string s]

/-- The name of an operator. -/
def BinaryOp.name : BinaryOp → String
  | add => "Add"
  | sub => "Sub"
  | mul => "Mul"
  | div => "Div"
  | and => "And"
  | or => "Or"
  | lt => "Lt"
  | le => "Le"
  | gt => "Gt"
  | ge => "Ge"
  | eq => "Eq"
  | ne => "Ne"

namespace Typed

def Param.layout (h : Heap Ty) (p : Param) : Layout :=
  .record "HirParam" [("name", .string p.name), ("ty", p.ty.layout h)]

mutual

def Expr.layout (h : Heap Ty) : Expr → Layout
  | ⟨id, ty, kind⟩ =>
    .record "HirExpr" [("id", id.layout), ("kind", Expr.kindLayout h kind), ("ty", ty.layout h)]

def Expr.kindLayout (h : Heap Ty) : ExprKind → Layout
  | .literal value => .tuple "Literal" [value.layout]
  | .group inner => .tuple "Group" [Expr.layout h inner]
  | .binary op left right =>
    .record "Binary"
      [("op", .text op.name), ("left", Expr.layout h left), ("right", Expr.layout h right)]
  | .variable name => .tuple "Variable" [.string name]
  | .property receiver name =>
    .record "Property" [("receiver", Expr.layout h receiver), ("name", .string name)]
  | .call name arguments =>
    .record "Function"
      [("name", .string name), ("arguments", .list (Expr.layoutList h arguments))]
  | .invoke receiver name arguments =>
    .record "Method"
      [("receiver", Expr.layout h receiver), ("name", .string name),
        ("arguments", .list (Expr.layoutList h arguments))]
  | .object name fields methods =>
    .record "Object"
      [("name", .optionalName name), ("fields", .list (Binding.layoutList h fields)),
        ("methods", .list (Definition.layoutList h methods))]

def Expr.layoutList (h : Heap Ty) : List Expr → List Layout
  | [] => []
  | e :: es => Expr.layout h e :: Expr.layoutList h es

def Expr.layoutOption (h : Heap Ty) : Option Expr → Layout
  | none => .option none
  | some e => .option (some (Expr.layout h e))

def Binding.layout (h : Heap Ty) : Binding → Layout
  | ⟨id, name, ty, value⟩ =>
    .record "HirLet"
      [("id", id.layout), ("name", .string name), ("ty", ty.layout h),
        ("value", Expr.layoutOption h value)]

def Binding.layoutList (h : Heap Ty) : List Binding → List Layout
  | [] => []
  | b :: bs => Binding.layout h b :: Binding.layoutList h bs

def Definition.layout (h : Heap Ty) : Definition → Layout
  | ⟨id, name, params, returns, body⟩ =>
    .record "HirDef"
      [("id", id.layout), ("name", .string name),
        ("params", .list (params.map (Param.layout h))), ("returns", returns.layout h),
        ("body", .list (Stmt.layoutList h body))]

def Definition.layoutList (h : Heap Ty) : List Definition → List Layout
  | [] => []
  | d :: ds => Definition.layout h d :: Definition.layoutList h ds

def Stmt.layout (h : Heap Ty) : Stmt → Layout
  | ⟨id, kind⟩ => .record "HirStmt" [("id", id.layout), ("kind", Stmt.kindLayout h kind)]

def Stmt.kindLayout (h : Heap Ty) : StmtKind → Layout
  | .letVar b => .tuple "Let" [Binding.layout h b]
  | .defFun d => .tuple "Def" [Definition.layout h d]
  | .ifElse condition thenBody elseBody =>
    .record "If"
      [("condition", Expr.layout h condition),
        ("then_body", .list (Stmt.layoutList h thenBody)),
        ("else_body", .list (Stmt.layoutList h elseBody))]
  | .forEach name ty iterable body =>
    .record "For"
      [("name", .string name), ("ty", ty.layout h), ("iterable", Expr.layout h iterable),
        ("body", .list (Stmt.layoutList h body))]
  | .returns value => .tuple "Return" [Expr.layoutOption h value]
  | .expr e => .tuple "Expression" [Expr.layout h e]
  | .assignVariable name ty value =>
    .record "AssignVariable"
      [("name", .string name), ("ty", ty.layout h), ("value", Expr.layout h value)]
  | .assignProperty receiver name ty value =>
    .record "AssignProperty"
      [("receiver", Expr.layout h receiver), ("name", .string name), ("ty", ty.layout h),
        ("value", Expr.layout h value)]

def Stmt.layoutList (h : Heap Ty) : List Stmt → List Layout
  | [] => []
  | s :: ss => Stmt.layout h s :: Stmt.layoutList h ss

end

/-- A whole typed script. -/
def scriptLayout (h : Heap Ty) (statements : List Stmt) : Layout :=
  .record "Hir" [("statements", .list (Stmt.layoutList h statements))]

end Typed

end GradualScript
