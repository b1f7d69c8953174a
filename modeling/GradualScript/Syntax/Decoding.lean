/-
# GradualScript.Syntax.Decoding -- scripts from JSON documents

A structure is given as an object, whose unknown members are ignored and whose known ones may stand
there once, or as an array of its parts in the order in which they are declared. Some parts may be
missing. A kind is an object with exactly one member, or the bare name of a constant without parts.

A node without an identity is allotted the next free number when all its parts have been read, so
parts are read in the order of the document.
-/

import GradualScript.Decimal.Text
import GradualScript.Json.Numeric
import GradualScript.Syntax.Script

namespace GradualScript

/-- How a script is given. -/
inductive ScriptForm where
  /-- As a text of its own: the parts of any kind may be given by their position. -/
  | text
  /-- Inside another document: the parts of the kinds of statements and expressions have to be
  named. -/
  | document
deriving DecidableEq, Repr

/-- A step of decoding: it may fail, and may allot the next free number. -/
abbrev Decode (α : Type) := StateT Nat Option α

namespace Decode

/-- A part of a structure: its name, and what reading it does to the parts read so far. -/
abbrev Part (σ : Type) := String × (Json → σ → Decode σ)

/-- Reads the members of an object. -/
def members {σ : Type} (parts : List (Part σ)) (seen : List String) :
    List (String × Json) → σ → Decode σ
  | [], soFar => pure soFar
  | (name, value) :: rest, soFar =>
    match parts.lookup name with
    | none => members parts seen rest soFar
    | some read =>
      if name ∈ seen then failure
      else do members parts (name :: seen) rest (← read value soFar)

/-- Reads parts by their position. -/
def positions {σ : Type} : List (Part σ) → List Json → σ → Decode σ
  | _, [], soFar => pure soFar
  | [], _ :: _, _ => failure
  | (_, read) :: parts, value :: rest, soFar => do positions parts rest (← read value soFar)

/-- Reads the parts of a structure. -/
def record {σ : Type} (parts : List (Part σ)) (start : σ) : Json → Decode σ
  | .object entries => members parts [] entries start
  | .array items => positions parts items start
  | _ => failure

/-- Reads the parts of a kind. -/
def kindRecord {σ : Type} (form : ScriptForm) (parts : List (Part σ)) (start : σ) (value : Json) :
    Decode σ :=
  match form, value with
  | .document, .array _ => failure
  | _, _ => record parts start value

/-- The name of a kind, and its parts if it is not given by the bare name. -/
def kind : Json → Decode (String × Option Json)
  | .string name => pure (name, none)
  | .object [(name, content)] => pure (name, some content)
  | _ => failure

/-! ## Parts without nodes -/

def text : Json → Decode String
  | .string s => pure s
  | _ => failure

def boolean : Json → Decode Bool
  | .boolean b => pure b
  | _ => failure

/-- A part that may be `null`. -/
def option {α : Type} (read : Json → Decode α) : Json → Decode (Option α)
  | .null => pure none
  | value => some <$> read value

def list {α : Type} (read : Json → Decode α) : Json → Decode (List α)
  | .array items => items.mapM read
  | _ => failure

/-- A number from zero up to, but not including, `limit`. -/
def natBelow (limit : Nat) : Json → Decode Nat
  | .number n =>
    match n.plain? with
    | some (.ofNat k) => if k < limit then pure k else failure
    | _ => failure
  | _ => failure

def nodeId (value : Json) : Decode NodeId := do
  return .given (.ofNat (← natBelow UInt32.size value))

def span (value : Json) : Decode Span := do
  let parts : List (Part (Option Nat × Option Nat)) :=
    [("start", fun v (_, stop) => return (some (← natBelow UInt64.size v), stop)),
      ("end", fun v (start, _) => return (start, some (← natBelow UInt64.size v)))]
  match ← record parts (none, none) value with
  | (some start, some stop) => return ⟨.ofNat start, .ofNat stop⟩
  | _ => failure

/-- An operator by its spelling, which counts as the name of a kind without parts. -/
def operator (value : Json) : Decode BinaryOp := do
  match ← kind value with
  | (name, none) | (name, some .null) => BinaryOp.ofText? name
  | _ => failure

/-- An integer in 64 bits with sign, or the text of any integer. -/
def integer : Json → Decode Int
  | .number n =>
    match n.plain? with
    | some i => if Int64.minValue.toInt ≤ i ∧ i ≤ Int64.maxValue.toInt then pure i else failure
    | none => failure
  | .string s => Numeral.integer? s.toList
  | _ => failure

/-- A number, or the text of a decimal. -/
def decimal : Json → Decode Decimal
  | .number n => n.decimal?
  | .string s => Decimal.ofText? s
  | _ => failure

/-- A text of one character. -/
def character (value : Json) : Decode Char := do
  match (← text value).toList with
  | [c] => return c
  | _ => failure

def literal (value : Json) : Decode Literal := do
  match ← kind value with
  | ("Nil", none) | ("Nil", some .null) => return .nil
  | ("Boolean", some content) => return .boolean (← boolean content)
  | ("Integer", some content) => return .integer (← integer content)
  | ("Decimal", some content) => return .decimal (← decimal content)
  | ("Character", some content) => return .character (← character content)
  | ("String", some content) => return .string (← text content)
  | _ => failure

def param (value : Json) : Decode Param := do
  let parts : List (Part (Option String × Option String)) :=
    [("name", fun v (_, ty) => return (some (← text v), ty)),
      ("ty", fun v (name, _) => return (name, ← option text v))]
  match ← record parts (none, none) value with
  | (some name, ty) => return ⟨name, ty⟩
  | _ => failure

/-! ## Nodes -/

/-- The identity of a node, if it was given; else the next free number. -/
def identity : Option NodeId → Decode NodeId
  | some id => pure id
  | none => modifyGet fun next => (.allotted next, next + 1)

/-- A node, and what stands there. -/
def node {α : Type} (readKind : Json → Decode α) (value : Json) : Decode (NodeRef × α) := do
  let parts : List (Part (Option NodeId × Option Span × Option α)) :=
    [("id", fun v (_, span, kind) => return (some (← nodeId v), span, kind)),
      ("span", fun v (id, _, kind) => return (id, ← option span v, kind)),
      ("kind", fun v (id, span, _) => return (id, span, some (← readKind v)))]
  let (id, span, kind) ← record parts (none, none, none) value
  let id ← identity id
  match kind with
  | some kind => return (⟨id, span⟩, kind)
  | none => failure

mutual

/-- An expression. Each step into the document uses up a unit of `fuel`. -/
def expr (form : ScriptForm) : (fuel : Nat) → Json → Decode Expr
  | 0, _ => failure
  | fuel + 1, value => do
    let (ref, kind) ← node (exprKind form fuel) value
    return ⟨ref, kind⟩

def exprKind (form : ScriptForm) : (fuel : Nat) → Json → Decode ExprKind
  | 0, _ => failure
  | fuel + 1, value => do
    match ← kind value with
    | ("Literal", some content) => return .literal (← literal content)
    | ("Group", some content) => return .group (← expr form fuel content)
    | ("Binary", some content) =>
      let parts : List (Part (Option BinaryOp × Option Expr × Option Expr)) :=
        [("op", fun v (_, l, r) => return (some (← operator v), l, r)),
          ("left", fun v (op, _, r) => return (op, some (← expr form fuel v), r)),
          ("right", fun v (op, l, _) => return (op, l, some (← expr form fuel v)))]
      match ← kindRecord form parts (none, none, none) content with
      | (some op, some l, some r) => return .binary op l r
      | _ => failure
    | ("Variable", some content) => return .variable (← text content)
    | ("Property", some content) =>
      let parts : List (Part (Option Expr × Option String)) :=
        [("receiver", fun v (_, name) => return (some (← expr form fuel v), name)),
          ("name", fun v (receiver, _) => return (receiver, some (← text v)))]
      match ← kindRecord form parts (none, none) content with
      | (some receiver, some name) => return .property receiver name
      | _ => failure
    | ("Function", some content) =>
      let parts : List (Part (Option String × Option (List Expr))) :=
        [("name", fun v (_, arguments) => return (some (← text v), arguments)),
          ("arguments", fun v (name, _) => return (name, some (← list (expr form fuel) v)))]
      match ← kindRecord form parts (none, none) content with
      | (some name, some arguments) => return .call name arguments
      | _ => failure
    | ("Method", some content) =>
      let parts : List (Part (Option Expr × Option String × Option (List Expr))) :=
        [("receiver", fun v (_, name, arguments) =>
            return (some (← expr form fuel v), name, arguments)),
          ("name", fun v (receiver, _, arguments) => return (receiver, some (← text v), arguments)),
          ("arguments", fun v (receiver, name, _) =>
            return (receiver, name, some (← list (expr form fuel) v)))]
      match ← kindRecord form parts (none, none, none) content with
      | (some receiver, some name, some arguments) => return .invoke receiver name arguments
      | _ => failure
    | ("Object", some content) =>
      let parts : List (Part (Option String × List Field × List Method)) :=
        [("name", fun v (_, fields, methods) => return (← option text v, fields, methods)),
          ("fields", fun v (name, _, methods) =>
            return (name, ← list (field form fuel) v, methods)),
          ("methods", fun v (name, fields, _) =>
            return (name, fields, ← list (method form fuel) v))]
      let (name, fields, methods) ← record parts (none, [], []) content
      return .object name fields methods
    | _ => failure

def field (form : ScriptForm) : (fuel : Nat) → Json → Decode Field
  | 0, _ => failure
  | fuel + 1, value => do
    let (ref, b) ← node (binding form fuel) value
    return ⟨ref, b⟩

def method (form : ScriptForm) : (fuel : Nat) → Json → Decode Method
  | 0, _ => failure
  | fuel + 1, value => do
    let (ref, d) ← node (definition form fuel) value
    return ⟨ref, d⟩

def binding (form : ScriptForm) : (fuel : Nat) → Json → Decode Binding
  | 0, _ => failure
  | fuel + 1, value => do
    let parts : List (Part (Option String × Option String × Option Expr)) :=
      [("name", fun v (_, ty, e) => return (some (← text v), ty, e)),
        ("ty", fun v (name, _, e) => return (name, ← option text v, e)),
        ("value", fun v (name, ty, _) => return (name, ty, ← option (expr form fuel) v))]
    match ← record parts (none, none, none) value with
    | (some name, ty, e) => return ⟨name, ty, e⟩
    | _ => failure

def definition (form : ScriptForm) : (fuel : Nat) → Json → Decode Definition
  | 0, _ => failure
  | fuel + 1, value => do
    let parts : List (Part (Option String × List Param × Option String × List Stmt)) :=
      [("name", fun v (_, params, returns, body) =>
          return (some (← text v), params, returns, body)),
        ("params", fun v (name, _, returns, body) =>
          return (name, ← list param v, returns, body)),
        ("returns", fun v (name, params, _, body) =>
          return (name, params, ← option text v, body)),
        ("body", fun v (name, params, returns, _) =>
          return (name, params, returns, ← list (stmt form fuel) v))]
    match ← record parts (none, [], none, []) value with
    | (some name, params, returns, body) => return ⟨name, params, returns, body⟩
    | _ => failure

def stmt (form : ScriptForm) : (fuel : Nat) → Json → Decode Stmt
  | 0, _ => failure
  | fuel + 1, value => do
    let (ref, kind) ← node (stmtKind form fuel) value
    return ⟨ref, kind⟩

def stmtKind (form : ScriptForm) : (fuel : Nat) → Json → Decode StmtKind
  | 0, _ => failure
  | fuel + 1, value => do
    match ← kind value with
    | ("Let", some content) => return .letVar (← binding form fuel content)
    | ("Def", some content) => return .defFun (← definition form fuel content)
    | ("If", some content) =>
      let parts : List (Part (Option Expr × Option (List Stmt) × Option (List Stmt))) :=
        [("condition", fun v (_, t, e) => return (some (← expr form fuel v), t, e)),
          ("then_body", fun v (c, _, e) => return (c, some (← list (stmt form fuel) v), e)),
          ("else_body", fun v (c, t, _) => return (c, t, some (← list (stmt form fuel) v)))]
      match ← kindRecord form parts (none, none, none) content with
      | (some c, some t, some e) => return .ifElse c t e
      | _ => failure
    | ("For", some content) =>
      let parts : List (Part (Option String × Option Expr × Option (List Stmt))) :=
        [("name", fun v (_, iterable, body) => return (some (← text v), iterable, body)),
          ("iterable", fun v (name, _, body) => return (name, some (← expr form fuel v), body)),
          ("body", fun v (name, iterable, _) =>
            return (name, iterable, some (← list (stmt form fuel) v)))]
      match ← kindRecord form parts (none, none, none) content with
      | (some name, some iterable, some body) => return .forEach name iterable body
      | _ => failure
    | ("Return", some content) => return .returns (← option (expr form fuel) content)
    | ("Expression", some content) => return .expr (← expr form fuel content)
    | ("Assignment", some content) =>
      let parts : List (Part (Option Expr × Option Expr)) :=
        [("target", fun v (_, e) => return (some (← expr form fuel v), e)),
          ("value", fun v (target, _) => return (target, some (← expr form fuel v)))]
      match ← kindRecord form parts (none, none) content with
      | (some target, some e) => return .assign target e
      | _ => failure
    | _ => failure

end

end Decode

/-- The script that a document holds. Numbers are allotted from one on. -/
def Script.ofJson? (form : ScriptForm) (value : Json) : Option Script :=
  let parts : List (Decode.Part (Option (List Stmt))) :=
    [("statements", fun v _ => some <$> Decode.list (Decode.stmt form value.depth) v)]
  match (Decode.record parts none value).run 1 with
  | some (some statements, _) => some ⟨statements⟩
  | _ => none

end GradualScript
