/-
# GradualScript.Proofs.Check.Outline -- the typed script mirrors the script

A script and its typed script are trees of two types, so what they have in common is written as a
third one (`Outline`): every statement, expression, field and method in its place and order, with
its identity, its names, operators and constants. A script loses its annotations and spans on the
way there, and an assignment the node of its target; a typed script loses its types. Nothing else is
lost (`Expr.outline`, `Typed.Expr.outline` and their likes), and where the checker accepts a script
the two outlines are one tree.

The proof goes by what each function of the checker has done where it succeeds, one case for each
constructor. No heap matters to it: what a session was before, and which types are found, has no
part in the shape of the typed script.
-/

import GradualScript.Proofs.Check.Accepted

namespace GradualScript

/-! ## Outlines -/

namespace Outline

mutual

/-- What a script and its typed script have in common at an expression: its identity and its
form. -/
structure Expr where
  id : NodeId
  kind : ExprKind

/-- The forms of expressions, with the names, operators and constants that stand in them. -/
inductive ExprKind where
  | literal (value : Literal)
  | group (inner : Expr)
  | binary (op : BinaryOp) (left right : Expr)
  | variable (name : String)
  | property (receiver : Expr) (name : String)
  | call (name : String) (arguments : List Expr)
  | invoke (receiver : Expr) (name : String) (arguments : List Expr)
  | object (name : Option String) (fields : List Binding) (methods : List Definition)

/-- A `LET` or a field. Which type its name has is not said: a script may leave that open. -/
structure Binding where
  id : NodeId
  name : String
  value : Option Expr

/-- A function or method by the names of its parameters and its body, without any type. -/
structure Definition where
  id : NodeId
  name : String
  params : List String
  body : List Stmt

/-- A statement as its identity and its form. -/
structure Stmt where
  id : NodeId
  kind : StmtKind

/-- The forms of statements. An assignment has one form for each kind of target, as in typed
scripts, where no node stands for the target. -/
inductive StmtKind where
  | letVar (binding : Binding)
  | defFun (definition : Definition)
  | ifElse (condition : Expr) (thenBody elseBody : List Stmt)
  | forEach (name : String) (iterable : Expr) (body : List Stmt)
  | returns (value : Option Expr)
  | expr (expression : Expr)
  | assignVariable (name : String) (value : Expr)
  | assignProperty (receiver : Expr) (name : String) (value : Expr)
  /-- An assignment to what is neither a variable nor a property. Scripts may have it, typed scripts
  do not. -/
  | assignOther (target value : Expr)

end

end Outline

/-! ### Of scripts -/

mutual

/-- An expression without spans and annotations. -/
def Expr.outline : Expr → Outline.Expr
  | ⟨node, kind⟩ => ⟨node.id, kind.outline⟩

/-- The same form over the outlines of its parts. -/
def ExprKind.outline : ExprKind → Outline.ExprKind
  | .literal value => .literal value
  | .group inner => .group inner.outline
  | .binary op left right => .binary op left.outline right.outline
  | .variable name => .variable name
  | .property receiver name => .property receiver.outline name
  | .call name arguments => .call name (Expr.allOutlines arguments)
  | .invoke receiver name arguments => .invoke receiver.outline name (Expr.allOutlines arguments)
  | .object name fields methods =>
    .object name (Field.allOutlines fields) (Method.allOutlines methods)

def Expr.allOutlines : List Expr → List Outline.Expr
  | [] => []
  | e :: rest => e.outline :: Expr.allOutlines rest

def Expr.optionOutline : Option Expr → Option Outline.Expr
  | none => none
  | some e => some e.outline

/-- A binding that belongs to node `id`. -/
def Binding.outline (id : NodeId) : Binding → Outline.Binding
  | ⟨name, _, value⟩ => ⟨id, name, Expr.optionOutline value⟩

/-- The fields of an object expression, each with the identity of its own node. -/
def Field.allOutlines : List Field → List Outline.Binding
  | [] => []
  | ⟨node, binding⟩ :: rest => binding.outline node.id :: Field.allOutlines rest

/-- A definition that belongs to node `id`. -/
def Definition.outline (id : NodeId) : Definition → Outline.Definition
  | ⟨name, params, _, body⟩ => ⟨id, name, params.map Param.name, Stmt.allOutlines body⟩

/-- The methods of an object expression, each with the identity of its own node. -/
def Method.allOutlines : List Method → List Outline.Definition
  | [] => []
  | ⟨node, definition⟩ :: rest => definition.outline node.id :: Method.allOutlines rest

/-- A statement without spans and annotations. -/
def Stmt.outline : Stmt → Outline.Stmt
  | ⟨node, kind⟩ => ⟨node.id, kind.outline node.id⟩

/-- What stands at statement `id`. A binding or a definition has no node of its own there. -/
def StmtKind.outline (id : NodeId) : StmtKind → Outline.StmtKind
  | .letVar binding => .letVar (binding.outline id)
  | .defFun definition => .defFun (definition.outline id)
  | .ifElse condition thenBody elseBody =>
    .ifElse condition.outline (Stmt.allOutlines thenBody) (Stmt.allOutlines elseBody)
  | .forEach name iterable body => .forEach name iterable.outline (Stmt.allOutlines body)
  | .returns value => .returns (Expr.optionOutline value)
  | .expr e => .expr e.outline
  | .assign ⟨_, .variable name⟩ value => .assignVariable name value.outline
  | .assign ⟨_, .property receiver name⟩ value =>
    .assignProperty receiver.outline name value.outline
  | .assign target value => .assignOther target.outline value.outline

def Stmt.allOutlines : List Stmt → List Outline.Stmt
  | [] => []
  | x :: rest => x.outline :: Stmt.allOutlines rest

end

/-- A script without spans, annotations and the nodes of the targets of its assignments. -/
def Script.outline (p : Script) : List Outline.Stmt := Stmt.allOutlines p.statements

/-! ### Of typed scripts -/

namespace Typed

mutual

/-- An expression without types. -/
def Expr.outline : Expr → Outline.Expr
  | ⟨id, _, kind⟩ => ⟨id, kind.outline⟩

def ExprKind.outline : ExprKind → Outline.ExprKind
  | .literal value => .literal value
  | .group inner => .group inner.outline
  | .binary op left right => .binary op left.outline right.outline
  | .variable name => .variable name
  | .property receiver name => .property receiver.outline name
  | .call name arguments => .call name (Expr.allOutlines arguments)
  | .invoke receiver name arguments => .invoke receiver.outline name (Expr.allOutlines arguments)
  | .object name fields methods =>
    .object name (Binding.allOutlines fields) (Definition.allOutlines methods)

def Expr.allOutlines : List Expr → List Outline.Expr
  | [] => []
  | e :: rest => e.outline :: Expr.allOutlines rest

def Expr.optionOutline : Option Expr → Option Outline.Expr
  | none => none
  | some e => some e.outline

/-- A binding without the type that was found for its name. -/
def Binding.outline : Binding → Outline.Binding
  | ⟨id, name, _, value⟩ => ⟨id, name, Expr.optionOutline value⟩

def Binding.allOutlines : List Binding → List Outline.Binding
  | [] => []
  | b :: rest => b.outline :: Binding.allOutlines rest

/-- A definition without its types. A typed parameter keeps its name only. -/
def Definition.outline : Definition → Outline.Definition
  | ⟨id, name, params, _, body⟩ => ⟨id, name, params.map Param.name, Stmt.allOutlines body⟩

def Definition.allOutlines : List Definition → List Outline.Definition
  | [] => []
  | d :: rest => d.outline :: Definition.allOutlines rest

def Stmt.outline : Stmt → Outline.Stmt
  | ⟨id, kind⟩ => ⟨id, kind.outline⟩

/-- What stands at a statement, without the type of the elements of a `FOR` and those of the targets
of assignments. -/
def StmtKind.outline : StmtKind → Outline.StmtKind
  | .letVar binding => .letVar binding.outline
  | .defFun definition => .defFun definition.outline
  | .ifElse condition thenBody elseBody =>
    .ifElse condition.outline (Stmt.allOutlines thenBody) (Stmt.allOutlines elseBody)
  | .forEach name _ iterable body => .forEach name iterable.outline (Stmt.allOutlines body)
  | .returns value => .returns (Expr.optionOutline value)
  | .expr e => .expr e.outline
  | .assignVariable name _ value => .assignVariable name value.outline
  | .assignProperty receiver name _ value => .assignProperty receiver.outline name value.outline

def Stmt.allOutlines : List Stmt → List Outline.Stmt
  | [] => []
  | x :: rest => x.outline :: Stmt.allOutlines rest

end

end Typed

/-! ## The outlines agree -/

namespace Check

mutual

/-- The typed expression that an expression is checked to has its outline. -/
theorem expr_outline : ∀ (e : Expr) {ctx : Context} {h h' : Heap Ty} {t : Typed.Expr},
    expr ctx e h = .ok t h' → t.outline = e.outline
  | ⟨node, kind⟩, _, _, _, _, ok => by
    obtain ⟨k, ty, checked, rfl⟩ := expr_ok ok
    rw [Typed.Expr.outline, Expr.outline, exprKind_outline kind checked]

theorem exprKind_outline : ∀ (k : ExprKind) {ctx : Context} {h h' : Heap Ty}
    {t : Typed.ExprKind} {ty : Ty}, exprKind ctx k h = .ok (t, ty) h' → t.outline = k.outline
  | .literal value, _, _, _, _, _, ok => by
    obtain ⟨same, _⟩ := literal_ok ok
    cases same
    rw [Typed.ExprKind.outline, ExprKind.outline]
  | .group inner, _, _, _, _, _, ok => by
    obtain ⟨i, checked, same⟩ := group_ok ok
    cases same
    rw [Typed.ExprKind.outline, ExprKind.outline, expr_outline inner checked]
  | .binary op left right, _, _, _, _, _, ok => by
    obtain ⟨l, r, _, _, first, second, _, same⟩ := binary_ok ok
    cases same
    rw [Typed.ExprKind.outline, ExprKind.outline, expr_outline left first,
      expr_outline right second]
  | .variable name, _, _, _, _, _, ok => by
    obtain ⟨_, _, same, _⟩ := variable_ok ok
    cases same
    rw [Typed.ExprKind.outline, ExprKind.outline]
  | .property receiver name, _, _, _, _, _, ok => by
    obtain ⟨r, _, checked, _, same⟩ := property_ok ok
    cases same
    rw [Typed.ExprKind.outline, ExprKind.outline, expr_outline receiver checked]
  | .call name arguments, _, _, _, _, _, ok => by
    obtain ⟨ps, _, ts, _, count, checked, same⟩ := call_ok ok
    cases same
    rw [Typed.ExprKind.outline, ExprKind.outline, argumentList_outline arguments count checked]
  | .invoke receiver name arguments, _, _, _, _, _, ok => by
    obtain ⟨r, _, ts, first, ⟨_, second, same⟩ | ⟨ps, _, _, count, second, same⟩⟩ := invoke_ok ok
    · cases same
      rw [Typed.ExprKind.outline, ExprKind.outline, expr_outline receiver first,
        exprs_outline arguments second]
    · cases same
      rw [Typed.ExprKind.outline, ExprKind.outline, expr_outline receiver first,
        argumentList_outline arguments count second]
  | .object name fieldList methodList, _, _, _, _, _, ok => by
    obtain ⟨bs, ds, _, first, second, same⟩ := object_ok ok
    cases same
    rw [Typed.ExprKind.outline, ExprKind.outline, fields_outline fieldList first,
      methods_outline methodList second]

/-- Arguments that are checked without parameters, as those of a method of a `Dynamic` receiver. -/
theorem exprs_outline : ∀ (es : List Expr) {ctx : Context} {h h' : Heap Ty} {ts : List Typed.Expr},
    exprs ctx es h = .ok ts h' → Typed.Expr.allOutlines ts = Expr.allOutlines es
  | [], _, _, _, _, ok => by
    rw [exprs, pure_ok] at ok
    obtain ⟨rfl, _⟩ := ok
    rw [Typed.Expr.allOutlines, Expr.allOutlines]
  | e :: rest, _, _, _, _, ok => by
    obtain ⟨t, more, _, first, following, rfl⟩ := exprs_cons_ok ok
    rw [Typed.Expr.allOutlines, Expr.allOutlines, expr_outline e first,
      exprs_outline rest following]

-- The arguments of a call are checked against parameters, and without as many of them as there are
-- arguments the rest would be dropped.
theorem argumentList_outline : ∀ (es : List Expr) {ctx : Context} {callee : String} {index : Nat}
    {ps : List Ty} {h h' : Heap Ty} {ts : List Typed.Expr}, es.length = ps.length →
    argumentList ctx callee index ps es h = .ok ts h' →
    Typed.Expr.allOutlines ts = Expr.allOutlines es
  | [], _, _, _, [], _, _, _, _, ok => by
    rw [argumentList, pure_ok] at ok
    · obtain ⟨rfl, _⟩ := ok
      rw [Typed.Expr.allOutlines, Expr.allOutlines]
    · simp
  | e :: rest, _, _, _, p :: ps, _, _, _, count, ok => by
    obtain ⟨t, more, _, first, _, following, rfl⟩ := argumentList_cons_ok ok
    rw [Typed.Expr.allOutlines, Expr.allOutlines, expr_outline e first,
      argumentList_outline rest (Nat.succ.inj count) following]

/-- A `LET` or a field, whether its type is annotated, taken from its value, or both. -/
theorem binding_outline : ∀ (b : Binding) {ctx : Context} {id : NodeId} {target : ScopeId}
    {h h' : Heap Ty} {t : Typed.Binding}, binding ctx id target b h = .ok t h' →
    t.outline = b.outline id
  | ⟨name, ty, none⟩, _, _, _, _, _, _, ok => by
    obtain ⟨_, _, _, _, _, rfl⟩ := binding_none_ok ok
    rw [Typed.Binding.outline, Binding.outline, Typed.Expr.optionOutline, Expr.optionOutline]
  | ⟨name, ty, some e⟩, _, _, _, _, _, _, ok => by
    obtain ⟨_, _, v, _, _, checked, _, _, _, rfl⟩ := binding_some_ok ok
    rw [Typed.Binding.outline, Binding.outline, Typed.Expr.optionOutline, Expr.optionOutline,
      expr_outline e checked]

theorem fields_outline : ∀ (fs : List Field) {ctx : Context} {target : ScopeId} {h h' : Heap Ty}
    {ts : List Typed.Binding}, fields ctx target fs h = .ok ts h' →
    Typed.Binding.allOutlines ts = Field.allOutlines fs
  | [], _, _, _, _, _, ok => by
    rw [fields, pure_ok] at ok
    obtain ⟨rfl, _⟩ := ok
    rw [Typed.Binding.allOutlines, Field.allOutlines]
  | ⟨node, b⟩ :: rest, _, _, _, _, _, ok => by
    obtain ⟨t, more, _, first, following, rfl⟩ := fields_cons_ok ok
    rw [Typed.Binding.allOutlines, Field.allOutlines, binding_outline b first,
      fields_outline rest following]

/-- A function or method. Its parameters keep their names and order, whatever their annotations
stand for. -/
theorem definition_outline : ∀ (d : Definition) {ctx : Context} {id : NodeId} {this : Option Ty}
    {h h' : Heap Ty} {t : Typed.Definition}, definition ctx id this d h = .ok t h' →
    t.outline = d.outline id
  | ⟨name, list, returns, statements⟩, _, _, _, _, _, _, ok => by
    obtain ⟨_, _, ps, _, _, _, ts, _, parameters, _, _, checked, rfl⟩ := definition_ok ok
    rw [Typed.Definition.outline, Definition.outline,
      Param.Elaborates.names_eq (params_ok parameters).2.1, block_outline statements checked]

theorem methods_outline : ∀ (ms : List Method) {ctx : Context} {this : Ty} {h h' : Heap Ty}
    {ts : List Typed.Definition}, methods ctx this ms h = .ok ts h' →
    Typed.Definition.allOutlines ts = Method.allOutlines ms
  | [], _, _, _, _, _, ok => by
    rw [methods, pure_ok] at ok
    obtain ⟨rfl, _⟩ := ok
    rw [Typed.Definition.allOutlines, Method.allOutlines]
  | ⟨node, d⟩ :: rest, _, _, _, _, _, ok => by
    obtain ⟨t, more, _, first, following, rfl⟩ := methods_cons_ok ok
    rw [Typed.Definition.allOutlines, Method.allOutlines, definition_outline d first,
      methods_outline rest following]

theorem stmt_outline : ∀ (x : Stmt) {ctx : Context} {h h' : Heap Ty} {t : Typed.Stmt},
    stmt ctx x h = .ok t h' → t.outline = x.outline
  | ⟨node, kind⟩, _, _, _, _, ok => by
    obtain ⟨k, checked, rfl⟩ := stmt_ok ok
    rw [Typed.Stmt.outline, Stmt.outline, stmtKind_outline kind checked]

/-- One case for each form of statement. An assignment to neither a variable nor a property is
refused, so nothing is to be said of it. -/
theorem stmtKind_outline : ∀ (k : StmtKind) {ctx : Context} {id : NodeId} {h h' : Heap Ty}
    {t : Typed.StmtKind}, stmtKind ctx id k h = .ok t h' → t.outline = k.outline id
  | .letVar b, _, _, _, _, _, ok => by
    obtain ⟨b', checked, rfl⟩ := letVar_ok ok
    rw [Typed.StmtKind.outline, StmtKind.outline, binding_outline b checked]
  | .defFun d, _, _, _, _, _, ok => by
    obtain ⟨d', checked, rfl⟩ := defFun_ok ok
    rw [Typed.StmtKind.outline, StmtKind.outline, definition_outline d checked]
  | .ifElse condition thenBody elseBody, _, _, _, _, _, ok => by
    obtain ⟨c, a, b, _, _, first, _, second, third, rfl⟩ := ifElse_ok ok
    rw [Typed.StmtKind.outline, StmtKind.outline, expr_outline condition first,
      block_outline thenBody second, block_outline elseBody third]
  | .forEach name iterable body, _, _, _, _, _, ok => by
    obtain ⟨i, ty, b, _, first, _, _, second, rfl⟩ := forEach_ok ok
    rw [Typed.StmtKind.outline, StmtKind.outline, expr_outline iterable first,
      block_outline body second]
  | .returns none, _, _, _, _, _, ok => by
    obtain ⟨_, _, _, rfl, _⟩ := returns_none_ok ok
    rw [Typed.StmtKind.outline, StmtKind.outline, Typed.Expr.optionOutline, Expr.optionOutline]
  | .returns (some e), _, _, _, _, _, ok => by
    obtain ⟨_, v, _, checked, _, rfl⟩ := returns_some_ok ok
    rw [Typed.StmtKind.outline, StmtKind.outline, Typed.Expr.optionOutline, Expr.optionOutline,
      expr_outline e checked]
  | .expr e, _, _, _, _, _, ok => by
    obtain ⟨v, checked, rfl⟩ := exprStmt_ok ok
    rw [Typed.StmtKind.outline, StmtKind.outline, expr_outline e checked]
  | .assign ⟨node, .variable name⟩ value, _, _, _, _, _, ok => by
    obtain ⟨ty, v, _, checked, _, rfl⟩ := assignVariable_ok ok
    rw [Typed.StmtKind.outline, StmtKind.outline, expr_outline value checked]
  | .assign ⟨node, .property receiver name⟩ value, _, _, _, _, _, ok => by
    obtain ⟨r, ty, v, _, first, _, second, _, rfl⟩ := assignProperty_ok ok
    rw [Typed.StmtKind.outline, StmtKind.outline, expr_outline receiver first,
      expr_outline value second]
  | .assign ⟨node, .literal _⟩ _, _, _, _, _, _, ok
  | .assign ⟨node, .group _⟩ _, _, _, _, _, _, ok
  | .assign ⟨node, .binary _ _ _⟩ _, _, _, _, _, _, ok
  | .assign ⟨node, .call _ _⟩ _, _, _, _, _, _, ok
  | .assign ⟨node, .invoke _ _ _⟩ _, _, _, _, _, _, ok
  | .assign ⟨node, .object _ _ _⟩ _, _, _, _, _, _, ok => by
    obtain ⟨_, same⟩ | ⟨_, _, same⟩ := assign_ok ok <;> cases same

/-- A block, statement by statement: none is dropped, moved or added. -/
theorem block_outline : ∀ (xs : List Stmt) {ctx : Context} {h h' : Heap Ty}
    {ts : List Typed.Stmt}, block ctx xs h = .ok ts h' →
    Typed.Stmt.allOutlines ts = Stmt.allOutlines xs
  | [], _, _, _, _, ok => by
    rw [block, pure_ok] at ok
    obtain ⟨rfl, _⟩ := ok
    rw [Typed.Stmt.allOutlines, Stmt.allOutlines]
  | x :: rest, _, _, _, _, ok => by
    obtain ⟨t, more, _, first, following, rfl⟩ := block_cons_ok ok
    rw [Typed.Stmt.allOutlines, Stmt.allOutlines, stmt_outline x first,
      block_outline rest following]

end

end Check

/-- The typed script of an accepted script has its outline: whatever was defined before, every
statement, expression, field and method of the one stands in the other, with its identity, its names
and its constants, and nothing else stands there. -/
theorem CheckSession.outline_check (s : CheckSession) (p : Script) {typed : List Typed.Stmt}
    (ok : (s.check p).1 = .ok typed) : Typed.Stmt.allOutlines typed = p.outline :=
  Check.block_outline p.statements (check_eq_ok ok)

/-- An object with a field and a method, a function, and a branch that assigns to a property on one
side and to a variable on the other. All nodes have numbers of their own. -/
def numberedScript : Script :=
  let node (n : UInt32) : NodeRef := ⟨.given n, none⟩
  ⟨[⟨node 1, .letVar ⟨"o", none, some ⟨node 2, .object (some "Cell")
      [⟨node 3, "x", some "Integer", some ⟨node 4, .literal (.integer 1)⟩⟩]
      [⟨node 5, "get", [⟨"n", some "Integer"⟩], some "Integer",
        [⟨node 6, .returns (some ⟨node 7, .binary .add ⟨node 8, .variable "n"⟩
          ⟨node 9, .property ⟨node 10, .variable "this"⟩ "x"⟩⟩)⟩]⟩]⟩⟩⟩,
    ⟨node 11, .defFun ⟨"same", [⟨"a", none⟩, ⟨"b", none⟩], none,
      [⟨node 12, .returns (some ⟨node 13, .variable "b"⟩)⟩]⟩⟩,
    ⟨node 14, .ifElse ⟨node 15, .literal (.boolean true)⟩
      [⟨node 16, .assign ⟨node 17, .property ⟨node 18, .variable "o"⟩ "x"⟩
        ⟨node 19, .invoke ⟨node 20, .variable "o"⟩ "get" [⟨node 21, .literal (.integer 2)⟩]⟩⟩]
      [⟨node 22, .assign ⟨node 23, .variable "o"⟩
        ⟨node 24, .call "same" [⟨node 25, .literal .nil⟩, ⟨node 26, .variable "o"⟩]⟩⟩]⟩]⟩

/-- The outline keeps all numbers but those of the targets, 17 and 23. -/
theorem CheckSession.outline_check_numbered :
    ∃ typed, ((CheckSession.start false).check numberedScript).1 = .ok typed ∧
      Typed.Stmt.allOutlines typed = numberedScript.outline ∧
      numberedScript.outline.getLast? = some ⟨.given 14, .ifElse
        ⟨.given 15, .literal (.boolean true)⟩
        [⟨.given 16, .assignProperty ⟨.given 18, .variable "o"⟩ "x"
          ⟨.given 19, .invoke ⟨.given 20, .variable "o"⟩ "get"
            [⟨.given 21, .literal (.integer 2)⟩]⟩⟩]
        [⟨.given 22, .assignVariable "o"
          ⟨.given 24, .call "same"
            [⟨.given 25, .literal .nil⟩, ⟨.given 26, .variable "o"⟩]⟩⟩]⟩ :=
  ⟨_, rfl, CheckSession.outline_check (CheckSession.start false) numberedScript rfl, rfl⟩

end GradualScript
