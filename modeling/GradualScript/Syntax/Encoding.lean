/-
# GradualScript.Syntax.Encoding -- scripts as JSON documents

A node is an object with its identity, its span and its kind. A kind is an object with one member,
which is named for what stands there and holds its parts; a constant without parts is its name
alone. All members are written, missing parts as `null`, in the order in which the parts are
declared. Integers and decimals are written as strings, so that no reader rounds them.

How the identity of a node is written is up to the caller (`showId`).
-/

import GradualScript.Decimal.Text
import GradualScript.Json.Value
import GradualScript.Syntax.Script

namespace GradualScript

namespace Json

/-- An object with one member. -/
def tagged (name : String) (content : Json) : Json := .object [(name, content)]

def optionalText : Option String → Json := ofOption .string

end Json

/-- The number of a node, as it is written when every node has a number. -/
def NodeId.json (id : NodeId) : Json := .ofNat id.number

def Span.json (s : Span) : Json :=
  .object [("start", .ofNat s.start.toNat), ("end", .ofNat s.stop.toNat)]

/-- A constant. Numbers are written as texts, which hold numbers of any size. -/
def Literal.json : Literal → Json
  | .nil => .string "Nil"
  | .boolean b => .tagged "Boolean" (.boolean b)
  | .integer n => .tagged "Integer" (.string (toString n))
  | .decimal d => .tagged "Decimal" (.string d.toText)
  | .character c => .tagged "Character" (.string c.toString)
  | .string s => .tagged "String" (.string s)

def Param.json (p : Param) : Json :=
  .object [("name", .string p.name), ("ty", .optionalText p.ty)]

/-- A node with its identity, its span and what stands there. -/
def NodeRef.json (showId : NodeId → Json) (node : NodeRef) (kind : Json) : Json :=
  .object [("id", showId node.id), ("span", .ofOption Span.json node.span), ("kind", kind)]

mutual

def Expr.json (showId : NodeId → Json) : Expr → Json
  | ⟨node, kind⟩ => node.json showId (Expr.kindJson showId kind)

/-- The kind of an expression, under its tag. -/
def Expr.kindJson (showId : NodeId → Json) : ExprKind → Json
  | .literal value => .tagged "Literal" value.json
  | .group inner => .tagged "Group" (Expr.json showId inner)
  | .binary op left right =>
    .tagged "Binary"
      (.object [("op", .string op.symbol), ("left", Expr.json showId left),
        ("right", Expr.json showId right)])
  | .variable name => .tagged "Variable" (.string name)
  | .property receiver name =>
    .tagged "Property" (.object [("receiver", Expr.json showId receiver), ("name", .string name)])
  | .call name arguments =>
    .tagged "Function"
      (.object [("name", .string name), ("arguments", .array (Expr.jsonList showId arguments))])
  | .invoke receiver name arguments =>
    .tagged "Method"
      (.object [("receiver", Expr.json showId receiver), ("name", .string name),
        ("arguments", .array (Expr.jsonList showId arguments))])
  | .object name fields methods =>
    .tagged "Object"
      (.object [("name", .optionalText name), ("fields", .array (Field.jsonList showId fields)),
        ("methods", .array (Method.jsonList showId methods))])

def Expr.jsonList (showId : NodeId → Json) : List Expr → List Json
  | [] => []
  | e :: es => Expr.json showId e :: Expr.jsonList showId es

def Expr.jsonOption (showId : NodeId → Json) : Option Expr → Json
  | none => .null
  | some e => Expr.json showId e

def Binding.json (showId : NodeId → Json) : Binding → Json
  | ⟨name, ty, value⟩ =>
    .object [("name", .string name), ("ty", .optionalText ty),
      ("value", Expr.jsonOption showId value)]

/-- A definition with its parameters, what it declares to return, and its body. -/
def Definition.json (showId : NodeId → Json) : Definition → Json
  | ⟨name, params, returns, body⟩ =>
    .object [("name", .string name), ("params", .array (params.map Param.json)),
      ("returns", .optionalText returns), ("body", .array (Stmt.jsonList showId body))]

def Field.jsonList (showId : NodeId → Json) : List Field → List Json
  | [] => []
  | ⟨node, b⟩ :: fields => node.json showId (Binding.json showId b) :: Field.jsonList showId fields

def Method.jsonList (showId : NodeId → Json) : List Method → List Json
  | [] => []
  | ⟨node, d⟩ :: methods =>
    node.json showId (Definition.json showId d) :: Method.jsonList showId methods

def Stmt.json (showId : NodeId → Json) : Stmt → Json
  | ⟨node, kind⟩ => node.json showId (Stmt.kindJson showId kind)

/-- The kind of a statement, under its tag. -/
def Stmt.kindJson (showId : NodeId → Json) : StmtKind → Json
  | .letVar b => .tagged "Let" (Binding.json showId b)
  | .defFun d => .tagged "Def" (Definition.json showId d)
  | .ifElse condition thenBody elseBody =>
    .tagged "If"
      (.object [("condition", Expr.json showId condition),
        ("then_body", .array (Stmt.jsonList showId thenBody)),
        ("else_body", .array (Stmt.jsonList showId elseBody))])
  | .forEach name iterable body =>
    .tagged "For"
      (.object [("name", .string name), ("iterable", Expr.json showId iterable),
        ("body", .array (Stmt.jsonList showId body))])
  | .returns value => .tagged "Return" (Expr.jsonOption showId value)
  | .expr e => .tagged "Expression" (Expr.json showId e)
  | .assign target value =>
    .tagged "Assignment"
      (.object [("target", Expr.json showId target), ("value", Expr.json showId value)])

def Stmt.jsonList (showId : NodeId → Json) : List Stmt → List Json
  | [] => []
  | s :: ss => Stmt.json showId s :: Stmt.jsonList showId ss

end

/-- A whole script. -/
def Script.json (showId : NodeId → Json) (p : Script) : Json :=
  .object [("statements", .array (Stmt.jsonList showId p.statements))]

end GradualScript
