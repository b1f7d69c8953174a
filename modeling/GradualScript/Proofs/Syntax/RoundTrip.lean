/-
# GradualScript.Proofs.Syntax.RoundTrip -- scripts that are written and read again

A script is written as a document and read back from it. What is read is the script that was
written, but for its decimals: these are written as texts, and a text does not keep the scale of a
zero nor zeros before the point (`Decimal.reread`). Reading and writing once more changes nothing,
so what was written once is in normal form.

The reader goes down the document with as much fuel as the document is deep. The proof follows the
reader: for each kind of node it needs the parts to be read back, with the fuel that is left.
-/

import GradualScript.Proofs.Decimal.Text
import GradualScript.Proofs.Syntax.Likeness
import GradualScript.Syntax.Decoding
import GradualScript.Syntax.Encoding

namespace GradualScript

/-! ## The decimals of a script -/

/-- The decimal that a literal is, if it is one. -/
def Literal.decimals : Literal → List Decimal
  | .decimal d => [d]
  | _ => []

/-- The literal with `f` applied to it if it is a decimal. -/
def Literal.mapDecimals (f : Decimal → Decimal) : Literal → Literal
  | .decimal d => .decimal (f d)
  | value => value

mutual

def Expr.decimals : Expr → List Decimal
  | ⟨_, kind⟩ => kind.decimals

/-- The decimals of the parts, in the order of the text. -/
def ExprKind.decimals : ExprKind → List Decimal
  | .literal value => value.decimals
  | .variable _ => []
  | .group inner => inner.decimals
  | .binary _ left right => left.decimals ++ right.decimals
  | .property receiver _ => receiver.decimals
  | .call _ arguments => Expr.allDecimals arguments
  | .invoke receiver _ arguments => receiver.decimals ++ Expr.allDecimals arguments
  | .object _ fields methods => Field.allDecimals fields ++ Method.allDecimals methods

def Expr.allDecimals : List Expr → List Decimal
  | [] => []
  | e :: rest => e.decimals ++ Expr.allDecimals rest

def Expr.optionDecimals : Option Expr → List Decimal
  | none => []
  | some e => e.decimals

def Binding.decimals : Binding → List Decimal
  | ⟨_, _, value⟩ => Expr.optionDecimals value

def Field.allDecimals : List Field → List Decimal
  | [] => []
  | ⟨_, binding⟩ :: rest => binding.decimals ++ Field.allDecimals rest

def Definition.decimals : Definition → List Decimal
  | ⟨_, _, _, body⟩ => Stmt.allDecimals body

def Method.allDecimals : List Method → List Decimal
  | [] => []
  | ⟨_, definition⟩ :: rest => definition.decimals ++ Method.allDecimals rest

def Stmt.decimals : Stmt → List Decimal
  | ⟨_, kind⟩ => kind.decimals

/-- The decimals of a statement. A type annotation has none. -/
def StmtKind.decimals : StmtKind → List Decimal
  | .letVar binding => binding.decimals
  | .defFun definition => definition.decimals
  | .ifElse condition thenBody elseBody =>
    condition.decimals ++ (Stmt.allDecimals thenBody ++ Stmt.allDecimals elseBody)
  | .forEach _ iterable body => iterable.decimals ++ Stmt.allDecimals body
  | .returns value => Expr.optionDecimals value
  | .expr e => e.decimals
  | .assign target value => target.decimals ++ value.decimals

def Stmt.allDecimals : List Stmt → List Decimal
  | [] => []
  | x :: rest => x.decimals ++ Stmt.allDecimals rest

end

/-- The decimals that stand in a script, in the order of the text. -/
def Script.decimals (p : Script) : List Decimal := Stmt.allDecimals p.statements

section MapDecimals

variable (f : Decimal → Decimal)

mutual

def Expr.mapDecimals : Expr → Expr
  | ⟨node, kind⟩ => ⟨node, kind.mapDecimals⟩

/-- The parts with their decimals replaced; names, operators and nodes stay. -/
def ExprKind.mapDecimals : ExprKind → ExprKind
  | .literal value => .literal (value.mapDecimals f)
  | .variable name => .variable name
  | .group inner => .group inner.mapDecimals
  | .binary op left right => .binary op left.mapDecimals right.mapDecimals
  | .property receiver name => .property receiver.mapDecimals name
  | .call name arguments => .call name (Expr.mapAllDecimals arguments)
  | .invoke receiver name arguments =>
    .invoke receiver.mapDecimals name (Expr.mapAllDecimals arguments)
  | .object name fields methods =>
    .object name (Field.mapAllDecimals fields) (Method.mapAllDecimals methods)

def Expr.mapAllDecimals : List Expr → List Expr
  | [] => []
  | e :: rest => e.mapDecimals :: Expr.mapAllDecimals rest

def Expr.mapOptionDecimals : Option Expr → Option Expr
  | none => none
  | some e => some e.mapDecimals

def Binding.mapDecimals : Binding → Binding
  | ⟨name, ty, value⟩ => ⟨name, ty, Expr.mapOptionDecimals value⟩

def Field.mapAllDecimals : List Field → List Field
  | [] => []
  | ⟨node, binding⟩ :: rest => ⟨node, binding.mapDecimals⟩ :: Field.mapAllDecimals rest

def Definition.mapDecimals : Definition → Definition
  | ⟨name, params, returns, body⟩ => ⟨name, params, returns, Stmt.mapAllDecimals body⟩

def Method.mapAllDecimals : List Method → List Method
  | [] => []
  | ⟨node, definition⟩ :: rest => ⟨node, definition.mapDecimals⟩ :: Method.mapAllDecimals rest

/-- A statement keeps its node. -/
def Stmt.mapDecimals : Stmt → Stmt
  | ⟨node, kind⟩ => ⟨node, kind.mapDecimals⟩

def StmtKind.mapDecimals : StmtKind → StmtKind
  | .letVar binding => .letVar binding.mapDecimals
  | .defFun definition => .defFun definition.mapDecimals
  | .ifElse condition thenBody elseBody =>
    .ifElse condition.mapDecimals (Stmt.mapAllDecimals thenBody) (Stmt.mapAllDecimals elseBody)
  | .forEach name iterable body =>
    .forEach name iterable.mapDecimals (Stmt.mapAllDecimals body)
  | .returns value => .returns (Expr.mapOptionDecimals value)
  | .expr e => .expr e.mapDecimals
  | .assign target value => .assign target.mapDecimals value.mapDecimals

def Stmt.mapAllDecimals : List Stmt → List Stmt
  | [] => []
  | x :: rest => x.mapDecimals :: Stmt.mapAllDecimals rest

end

/-- The script with `f` applied to each of its decimals, and the same for the rest. -/
def Script.mapDecimals (p : Script) : Script := ⟨Stmt.mapAllDecimals f p.statements⟩

/-! ## Writing -/

variable {f} {showId : NodeId → Json}

/-- A decimal is written as its text. -/
theorem Literal.json_mapDecimals (text : ∀ d, (f d).toText = d.toText) (value : Literal) :
    (value.mapDecimals f).json = value.json := by
  cases value with
  | decimal d => rw [mapDecimals, json, json, text]
  | _ => rfl

mutual

/-- An expression is written the same if its decimals are. -/
theorem Expr.json_mapDecimals (text : ∀ d, (f d).toText = d.toText) :
    ∀ e : Expr, (e.mapDecimals f).json showId = e.json showId
  | ⟨node, kind⟩ => by
    rw [Expr.mapDecimals, Expr.json, Expr.json, ExprKind.json_mapDecimals text kind]

theorem ExprKind.json_mapDecimals (text : ∀ d, (f d).toText = d.toText) :
    ∀ k : ExprKind, Expr.kindJson showId (k.mapDecimals f) = Expr.kindJson showId k
  | .literal value => by
    rw [ExprKind.mapDecimals, Expr.kindJson, Expr.kindJson, Literal.json_mapDecimals text]
  | .variable name => by rw [ExprKind.mapDecimals]
  | .group inner => by
    rw [ExprKind.mapDecimals, Expr.kindJson, Expr.kindJson, Expr.json_mapDecimals text inner]
  | .binary op left right => by
    rw [ExprKind.mapDecimals, Expr.kindJson, Expr.kindJson, Expr.json_mapDecimals text left,
      Expr.json_mapDecimals text right]
  | .property receiver name => by
    rw [ExprKind.mapDecimals, Expr.kindJson, Expr.kindJson, Expr.json_mapDecimals text receiver]
  | .call name arguments => by
    rw [ExprKind.mapDecimals, Expr.kindJson, Expr.kindJson,
      Expr.jsonList_mapDecimals text arguments]
  | .invoke receiver name arguments => by
    rw [ExprKind.mapDecimals, Expr.kindJson, Expr.kindJson, Expr.json_mapDecimals text receiver,
      Expr.jsonList_mapDecimals text arguments]
  | .object name fields methods => by
    rw [ExprKind.mapDecimals, Expr.kindJson, Expr.kindJson, Field.jsonList_mapDecimals text fields,
      Method.jsonList_mapDecimals text methods]

theorem Expr.jsonList_mapDecimals (text : ∀ d, (f d).toText = d.toText) :
    ∀ es : List Expr, Expr.jsonList showId (Expr.mapAllDecimals f es) = Expr.jsonList showId es
  | [] => by rw [Expr.mapAllDecimals]
  | e :: rest => by
    rw [Expr.mapAllDecimals, Expr.jsonList, Expr.jsonList, Expr.json_mapDecimals text e,
      Expr.jsonList_mapDecimals text rest]

theorem Expr.jsonOption_mapDecimals (text : ∀ d, (f d).toText = d.toText) :
    ∀ value : Option Expr,
      Expr.jsonOption showId (Expr.mapOptionDecimals f value) = Expr.jsonOption showId value
  | none => by rw [Expr.mapOptionDecimals]
  | some e => by
    rw [Expr.mapOptionDecimals, Expr.jsonOption, Expr.jsonOption, Expr.json_mapDecimals text e]

theorem Binding.json_mapDecimals (text : ∀ d, (f d).toText = d.toText) :
    ∀ b : Binding, (b.mapDecimals f).json showId = b.json showId
  | ⟨name, ty, value⟩ => by
    rw [Binding.mapDecimals, Binding.json, Binding.json, Expr.jsonOption_mapDecimals text value]

theorem Field.jsonList_mapDecimals (text : ∀ d, (f d).toText = d.toText) :
    ∀ fs : List Field, Field.jsonList showId (Field.mapAllDecimals f fs) = Field.jsonList showId fs
  | [] => by rw [Field.mapAllDecimals]
  | ⟨node, binding⟩ :: rest => by
    rw [Field.mapAllDecimals, Field.jsonList, Field.jsonList, Binding.json_mapDecimals text binding,
      Field.jsonList_mapDecimals text rest]

theorem Definition.json_mapDecimals (text : ∀ d, (f d).toText = d.toText) :
    ∀ d : Definition, (d.mapDecimals f).json showId = d.json showId
  | ⟨name, params, returns, body⟩ => by
    rw [Definition.mapDecimals, Definition.json, Definition.json,
      Stmt.jsonList_mapDecimals text body]

theorem Method.jsonList_mapDecimals (text : ∀ d, (f d).toText = d.toText) :
    ∀ ms : List Method,
      Method.jsonList showId (Method.mapAllDecimals f ms) = Method.jsonList showId ms
  | [] => by rw [Method.mapAllDecimals]
  | ⟨node, definition⟩ :: rest => by
    rw [Method.mapAllDecimals, Method.jsonList, Method.jsonList,
      Definition.json_mapDecimals text definition, Method.jsonList_mapDecimals text rest]

/-- A statement is written the same if its decimals are. -/
theorem Stmt.json_mapDecimals (text : ∀ d, (f d).toText = d.toText) :
    ∀ x : Stmt, (x.mapDecimals f).json showId = x.json showId
  | ⟨node, kind⟩ => by
    rw [Stmt.mapDecimals, Stmt.json, Stmt.json, StmtKind.json_mapDecimals text kind]

theorem StmtKind.json_mapDecimals (text : ∀ d, (f d).toText = d.toText) :
    ∀ k : StmtKind, Stmt.kindJson showId (k.mapDecimals f) = Stmt.kindJson showId k
  | .letVar binding => by
    rw [StmtKind.mapDecimals, Stmt.kindJson, Stmt.kindJson, Binding.json_mapDecimals text binding]
  | .defFun definition => by
    rw [StmtKind.mapDecimals, Stmt.kindJson, Stmt.kindJson,
      Definition.json_mapDecimals text definition]
  | .ifElse condition thenBody elseBody => by
    rw [StmtKind.mapDecimals, Stmt.kindJson, Stmt.kindJson, Expr.json_mapDecimals text condition,
      Stmt.jsonList_mapDecimals text thenBody, Stmt.jsonList_mapDecimals text elseBody]
  | .forEach name iterable body => by
    rw [StmtKind.mapDecimals, Stmt.kindJson, Stmt.kindJson, Expr.json_mapDecimals text iterable,
      Stmt.jsonList_mapDecimals text body]
  | .returns value => by
    rw [StmtKind.mapDecimals, Stmt.kindJson, Stmt.kindJson, Expr.jsonOption_mapDecimals text value]
  | .expr e => by
    rw [StmtKind.mapDecimals, Stmt.kindJson, Stmt.kindJson, Expr.json_mapDecimals text e]
  | .assign target value => by
    rw [StmtKind.mapDecimals, Stmt.kindJson, Stmt.kindJson, Expr.json_mapDecimals text target,
      Expr.json_mapDecimals text value]

theorem Stmt.jsonList_mapDecimals (text : ∀ d, (f d).toText = d.toText) :
    ∀ xs : List Stmt, Stmt.jsonList showId (Stmt.mapAllDecimals f xs) = Stmt.jsonList showId xs
  | [] => by rw [Stmt.mapAllDecimals]
  | x :: rest => by
    rw [Stmt.mapAllDecimals, Stmt.jsonList, Stmt.jsonList, Stmt.json_mapDecimals text x,
      Stmt.jsonList_mapDecimals text rest]

end

/-- Decimals that are written the same are all the same to the document. -/
theorem Script.json_mapDecimals (text : ∀ d, (f d).toText = d.toText) (p : Script) :
    (p.mapDecimals f).json showId = p.json showId := by
  rw [Script.mapDecimals, Script.json, Script.json, Stmt.jsonList_mapDecimals text]

end MapDecimals

/-! ## Reading parts without nodes -/

namespace Decode

/-- A number is read back if it is within the limit that its reader sets. -/
theorem natBelow_ofNat {limit n : Nat} (below : n < limit) :
    natBelow limit (Json.ofNat n) = pure n := by
  simp [natBelow, Json.ofNat, Json.Number.plain?, below]

/-- An identity that came with the script is read back. -/
theorem nodeId_json {id : NodeId} (given : ∃ k, id = .given k) :
    nodeId (NodeId.json id) = pure id := by
  obtain ⟨k, rfl⟩ := given
  rw [nodeId, NodeId.json, NodeId.number, natBelow_ofNat k.toNat_lt, pure_bind,
    UInt32.ofNat_toNat]

/-- Both forms of a script have the parts of a node in an object. -/
theorem kindRecord_object {σ : Type} (form : ScriptForm) (parts : List (Part σ)) (start : σ)
    (entries : List (String × Json)) :
    kindRecord form parts start (.object entries) = members parts [] entries start := by
  cases form <;> rfl

theorem kind_tagged (name : String) (content : Json) :
    kind (.tagged name content) = pure (name, some content) := rfl

/-- A range of text is read back, whatever its ends are. -/
theorem span_json (s : Span) : span s.json = pure s := by
  have start := natBelow_ofNat (show s.start.toNat < UInt64.size from s.start.toNat_lt)
  have stop := natBelow_ofNat (show s.stop.toNat < UInt64.size from s.stop.toNat_lt)
  simp [span, Span.json, record, members, List.lookup_cons, start, stop]

/-- A range of text may be missing. -/
theorem option_span (s : Option Span) : option span (.ofOption Span.json s) = pure s := by
  cases s with
  | none => rfl
  | some s =>
    show some <$> span s.json = _
    rw [span_json, map_pure]

theorem option_text (s : Option String) : option text (.optionalText s) = pure s := by
  cases s <;> rfl

theorem operator_symbol (op : BinaryOp) : operator (.string op.symbol) = pure op := by
  cases op <;> rfl

/-- A constant is read back, and a decimal as its text is read. -/
theorem literal_json {value : Literal}
    (range : ∀ d ∈ value.decimals, Decimal.scaleInRange d.scale = true) :
    literal value.json = pure (value.mapDecimals Decimal.reread) := by
  cases value with
  | nil => rfl
  | boolean b => rfl
  | integer n =>
    have read : integer (.string (toString n)) = pure n := by
      rw [integer, Numeral.integer?_toString]
      rfl
    show (do return Literal.integer (← integer (.string (toString n)))) = _
    rw [read]
    rfl
  | decimal d =>
    have read : decimal (.string d.toText) = pure d.reread := by
      rw [decimal, Decimal.ofText?_toText (range d List.mem_cons_self)]
      rfl
    show (do return Literal.decimal (← decimal (.string d.toText))) = _
    rw [read]
    rfl
  | character c =>
    have read : character (.string c.toString) = pure c := by
      simp [character, text]
    show (do return Literal.character (← character (.string c.toString))) = _
    rw [read]
    rfl
  | string s => rfl

theorem param_json (p : Param) : param p.json = pure p := by
  have ty := option_text p.ty
  simp [param, Param.json, record, members, List.lookup_cons, text, ty]

/-- Parameters are read back, with their annotations. -/
theorem params_json : ∀ ps : List Param, ps.mapM (param ∘ Param.json) = pure ps
  | [] => rfl
  | p :: rest => by
    rw [List.mapM_cons, Function.comp_apply, param_json, params_json rest, pure_bind, pure_bind]

/-! ## Reading nodes -/

/-- A node is read back if what stands there is. -/
theorem node_json {α : Type} {readKind : Json → Decode α} {n : NodeRef} {json : Json} {a : α}
    (given : ∃ k, n.id = .given k) (read : readKind json = pure a) :
    node readKind (n.json NodeId.json json) = pure (n, a) := by
  have id := nodeId_json given
  have span := option_span n.span
  simp [node, NodeRef.json, record, members, List.lookup_cons, id, span, read, identity]

/-- What a script has to be for its document to hold all of it: every node was given its identity,
and the scale of every decimal is a 64-bit number. -/
structure Exact (nodes : List NodeRef) (decimals : List Decimal) : Prop where
  given : ∀ n ∈ nodes, ∃ k, n.id = .given k
  range : ∀ d ∈ decimals, Decimal.scaleInRange d.scale = true

namespace Exact

variable {ns ms : List NodeRef} {ds es : List Decimal} {n : NodeRef}

theorem append (exact : Exact (ns ++ ms) (ds ++ es)) : Exact ns ds ∧ Exact ms es := by
  obtain ⟨given, range⟩ := exact
  rw [List.forall_mem_append] at given range
  exact ⟨⟨given.1, range.1⟩, ⟨given.2, range.2⟩⟩

theorem cons (exact : Exact (n :: ns) ds) : (∃ k, n.id = .given k) ∧ Exact ns ds := by
  obtain ⟨given, range⟩ := exact
  rw [List.forall_mem_cons] at given
  exact ⟨given.1, given.2, range⟩

end Exact

theorem depth_tagged (name : String) (content : Json) :
    (Json.tagged name content).depth = content.depth + 1 := by
  rw [Json.tagged, Json.depth, Json.depthMembers, Json.depthMembers, Nat.max_zero]

/-- What stands at a node is less deep than the node. -/
theorem depth_node {showId : NodeId → Json} {n : NodeRef} {json : Json} {fuel : Nat}
    (deep : (n.json showId json).depth ≤ fuel) : ∃ rest, fuel = rest + 1 ∧ json.depth ≤ rest := by
  simp only [NodeRef.json, Json.depth, Json.depthMembers] at deep
  exact ⟨fuel - 1, by omega, by omega⟩

variable (form : ScriptForm)

mutual

-- The reader spends one unit of fuel on each node and on each kind, binding and definition. All of
-- them are objects, so each is one level of the document, and where no fuel is left there is none.
theorem expr_json : ∀ (fuel : Nat) (e : Expr), Exact e.nodes e.decimals →
    (e.json NodeId.json).depth ≤ fuel →
    expr form fuel (e.json NodeId.json) = pure (e.mapDecimals Decimal.reread)
  | fuel, ⟨node, kind⟩, exact, deep => by
    rw [Expr.nodes, Expr.decimals] at exact
    rw [Expr.json] at deep
    obtain ⟨rest, rfl, below⟩ := depth_node deep
    rw [Expr.json, Expr.mapDecimals, expr,
      node_json exact.cons.1 (exprKind_json _ kind exact.cons.2 below), pure_bind]

theorem exprKind_json : ∀ (fuel : Nat) (k : ExprKind),
    Exact k.nodes k.decimals → (Expr.kindJson NodeId.json k).depth ≤ fuel →
    exprKind form fuel (Expr.kindJson NodeId.json k) = pure (k.mapDecimals Decimal.reread)
  | 0, k, exact, deep => by
    cases k <;> (rw [Expr.kindJson, depth_tagged] at deep; omega)
  | fuel + 1, .literal value, exact, deep => by
    rw [ExprKind.decimals] at exact
    rw [Expr.kindJson, ExprKind.mapDecimals, exprKind, kind_tagged, pure_bind]
    show (do return ExprKind.literal (← literal value.json)) = _
    rw [literal_json exact.range, pure_bind]
  | fuel + 1, .variable name, exact, deep => by
    rw [ExprKind.mapDecimals]
    rfl
  | fuel + 1, .group inner, exact, deep => by
    rw [ExprKind.nodes, ExprKind.decimals] at exact
    rw [Expr.kindJson, depth_tagged] at deep
    rw [Expr.kindJson, ExprKind.mapDecimals, exprKind, kind_tagged, pure_bind]
    show (do return ExprKind.group (← expr form fuel (inner.json NodeId.json))) = _
    rw [expr_json _ inner exact (Nat.le_of_succ_le_succ deep), pure_bind]
  | fuel + 1, .binary op left right, exact, deep => by
    rw [ExprKind.nodes, ExprKind.decimals] at exact
    simp only [Expr.kindJson, depth_tagged, Json.depth, Json.depthMembers] at deep
    have left := expr_json fuel left exact.append.1 (by omega)
    have right := expr_json fuel right exact.append.2 (by omega)
    simp [exprKind, Expr.kindJson, kind_tagged, kindRecord_object, members, List.lookup_cons,
      operator_symbol, left, right, ExprKind.mapDecimals]
  | fuel + 1, .property receiver name, exact, deep => by
    rw [ExprKind.nodes, ExprKind.decimals] at exact
    simp only [Expr.kindJson, depth_tagged, Json.depth, Json.depthMembers] at deep
    have receiver := expr_json fuel receiver exact (by omega)
    simp [exprKind, Expr.kindJson, kind_tagged, kindRecord_object, members, List.lookup_cons, text,
      receiver, ExprKind.mapDecimals]
  | fuel + 1, .call name arguments, exact, deep => by
    rw [ExprKind.nodes, ExprKind.decimals] at exact
    simp only [Expr.kindJson, depth_tagged, Json.depth, Json.depthMembers] at deep
    have arguments := exprs_json fuel arguments exact (by omega)
    simp [exprKind, Expr.kindJson, kind_tagged, kindRecord_object, members,
      List.lookup_cons, text, list, arguments, ExprKind.mapDecimals]
  | fuel + 1, .invoke receiver name arguments, exact, deep => by
    rw [ExprKind.nodes, ExprKind.decimals] at exact
    simp only [Expr.kindJson, depth_tagged, Json.depth, Json.depthMembers] at deep
    have receiver := expr_json fuel receiver exact.append.1 (by omega)
    have arguments := exprs_json fuel arguments exact.append.2 (by omega)
    simp [exprKind, Expr.kindJson, kind_tagged, kindRecord_object, members,
      List.lookup_cons, text, list, receiver, arguments, ExprKind.mapDecimals]
  | fuel + 1, .object name fields methods, exact, deep => by
    rw [ExprKind.nodes, ExprKind.decimals] at exact
    simp only [Expr.kindJson, depth_tagged, Json.depth, Json.depthMembers] at deep
    have fields := fields_json fuel fields exact.append.1 (by omega)
    have methods := methods_json fuel methods exact.append.2 (by omega)
    simp [exprKind, Expr.kindJson, kind_tagged, record, members, List.lookup_cons,
      option_text, list, fields, methods, ExprKind.mapDecimals]

/-- Each expression of a list is read with the fuel of the list. -/
theorem exprs_json : ∀ (fuel : Nat) (es : List Expr),
    Exact (Expr.allNodes es) (Expr.allDecimals es) →
    Json.depthItems (Expr.jsonList NodeId.json es) ≤ fuel →
    (Expr.jsonList NodeId.json es).mapM (expr form fuel) =
      pure (Expr.mapAllDecimals Decimal.reread es)
  | fuel, [], exact, deep => by
    rw [Expr.jsonList, Expr.mapAllDecimals, List.mapM_nil]
  | fuel, e :: rest, exact, deep => by
    rw [Expr.allNodes, Expr.allDecimals] at exact
    rw [Expr.jsonList, Json.depthItems, Nat.max_le] at deep
    rw [Expr.jsonList, Expr.mapAllDecimals, List.mapM_cons, expr_json _ e exact.append.1 deep.1,
      exprs_json _ rest exact.append.2 deep.2, pure_bind, pure_bind]

theorem exprOption_json : ∀ (fuel : Nat) (value : Option Expr),
    Exact (Expr.optionNodes value) (Expr.optionDecimals value) →
    (Expr.jsonOption NodeId.json value).depth ≤ fuel →
    option (expr form fuel) (Expr.jsonOption NodeId.json value) =
      pure (Expr.mapOptionDecimals Decimal.reread value)
  | fuel, none, exact, deep => by
    rw [Expr.mapOptionDecimals]
    rfl
  | fuel, some e, exact, deep => by
    rw [Expr.optionNodes, Expr.optionDecimals] at exact
    rw [Expr.jsonOption] at deep
    have read := expr_json _ e exact deep
    rw [Expr.jsonOption, Expr.mapOptionDecimals]
    -- An expression is written as an object, never as the `null` of one that is missing.
    obtain ⟨node, kind⟩ := e
    rw [Expr.json] at read ⊢
    show some <$> expr form fuel _ = _
    rw [read, map_pure]

/-- A binding is an object, and its value is read with less fuel. -/
theorem binding_json : ∀ (fuel : Nat) (b : Binding),
    Exact b.nodes b.decimals → (b.json NodeId.json).depth ≤ fuel →
    binding form fuel (b.json NodeId.json) = pure (b.mapDecimals Decimal.reread)
  | 0, ⟨name, ty, value⟩, exact, deep => by
    rw [Binding.json, Json.depth] at deep
    omega
  | fuel + 1, ⟨name, ty, value⟩, exact, deep => by
    rw [Binding.nodes, Binding.decimals] at exact
    simp only [Binding.json, Json.depth, Json.depthMembers] at deep
    have value := exprOption_json fuel value exact (by omega)
    simp [binding, Binding.json, record, members, List.lookup_cons, text, option_text, value,
      Binding.mapDecimals]

theorem fields_json : ∀ (fuel : Nat) (fs : List Field),
    Exact (Field.allNodes fs) (Field.allDecimals fs) →
    Json.depthItems (Field.jsonList NodeId.json fs) ≤ fuel →
    (Field.jsonList NodeId.json fs).mapM (field form fuel) =
      pure (Field.mapAllDecimals Decimal.reread fs)
  | fuel, [], exact, deep => by
    rw [Field.jsonList, Field.mapAllDecimals, List.mapM_nil]
  | fuel, ⟨node, b⟩ :: following, exact, deep => by
    rw [Field.allNodes, Field.allDecimals] at exact
    rw [Field.jsonList, Json.depthItems, Nat.max_le] at deep
    have more := fields_json _ following exact.cons.2.append.2 deep.2
    obtain ⟨rest, rfl, below⟩ := depth_node deep.1
    rw [Field.jsonList, Field.mapAllDecimals, List.mapM_cons, field,
      node_json exact.cons.1 (binding_json _ b exact.cons.2.append.1 below), more]
    rfl

/-- A definition is an object, and its body is read with less fuel. -/
theorem definition_json : ∀ (fuel : Nat) (d : Definition),
    Exact d.nodes d.decimals → (d.json NodeId.json).depth ≤ fuel →
    definition form fuel (d.json NodeId.json) = pure (d.mapDecimals Decimal.reread)
  | 0, ⟨name, ps, returns, body⟩, exact, deep => by
    rw [Definition.json, Json.depth] at deep
    omega
  | fuel + 1, ⟨name, ps, returns, body⟩, exact, deep => by
    rw [Definition.nodes, Definition.decimals] at exact
    simp only [Definition.json, Json.depth, Json.depthMembers] at deep
    have body := stmts_json fuel body exact (by omega)
    simp [definition, Definition.json, record, members, List.lookup_cons, text, option_text, list,
      params_json, body, Definition.mapDecimals]

theorem methods_json : ∀ (fuel : Nat) (ms : List Method),
    Exact (Method.allNodes ms) (Method.allDecimals ms) →
    Json.depthItems (Method.jsonList NodeId.json ms) ≤ fuel →
    (Method.jsonList NodeId.json ms).mapM (method form fuel) =
      pure (Method.mapAllDecimals Decimal.reread ms)
  | fuel, [], exact, deep => by
    rw [Method.jsonList, Method.mapAllDecimals, List.mapM_nil]
  | fuel, ⟨node, d⟩ :: following, exact, deep => by
    rw [Method.allNodes, Method.allDecimals] at exact
    rw [Method.jsonList, Json.depthItems, Nat.max_le] at deep
    have more := methods_json _ following exact.cons.2.append.2 deep.2
    obtain ⟨rest, rfl, below⟩ := depth_node deep.1
    rw [Method.jsonList, Method.mapAllDecimals, List.mapM_cons, method,
      node_json exact.cons.1 (definition_json _ d exact.cons.2.append.1 below), more]
    rfl

/-- A statement is read back if its kind is. -/
theorem stmt_json : ∀ (fuel : Nat) (x : Stmt), Exact x.nodes x.decimals →
    (x.json NodeId.json).depth ≤ fuel →
    stmt form fuel (x.json NodeId.json) = pure (x.mapDecimals Decimal.reread)
  | fuel, ⟨node, kind⟩, exact, deep => by
    rw [Stmt.nodes, Stmt.decimals] at exact
    rw [Stmt.json] at deep
    obtain ⟨rest, rfl, below⟩ := depth_node deep
    rw [Stmt.json, Stmt.mapDecimals, stmt,
      node_json exact.cons.1 (stmtKind_json _ kind exact.cons.2 below), pure_bind]

/-- Statements of each kind are read back if their parts are. -/
theorem stmtKind_json : ∀ (fuel : Nat) (k : StmtKind),
    Exact k.nodes k.decimals → (Stmt.kindJson NodeId.json k).depth ≤ fuel →
    stmtKind form fuel (Stmt.kindJson NodeId.json k) = pure (k.mapDecimals Decimal.reread)
  | 0, k, exact, deep => by
    cases k <;> (rw [Stmt.kindJson, depth_tagged] at deep; omega)
  | fuel + 1, .letVar b, exact, deep => by
    rw [StmtKind.nodes, StmtKind.decimals] at exact
    rw [Stmt.kindJson, depth_tagged] at deep
    rw [Stmt.kindJson, StmtKind.mapDecimals, stmtKind, kind_tagged, pure_bind]
    show (do return StmtKind.letVar (← binding form fuel (b.json NodeId.json))) = _
    rw [binding_json _ b exact (Nat.le_of_succ_le_succ deep), pure_bind]
  | fuel + 1, .defFun d, exact, deep => by
    rw [StmtKind.nodes, StmtKind.decimals] at exact
    rw [Stmt.kindJson, depth_tagged] at deep
    rw [Stmt.kindJson, StmtKind.mapDecimals, stmtKind, kind_tagged, pure_bind]
    show (do return StmtKind.defFun (← definition form fuel (d.json NodeId.json))) = _
    rw [definition_json _ d exact (Nat.le_of_succ_le_succ deep), pure_bind]
  | fuel + 1, .ifElse condition thenBody elseBody, exact, deep => by
    rw [StmtKind.nodes, StmtKind.decimals] at exact
    simp only [Stmt.kindJson, depth_tagged, Json.depth, Json.depthMembers] at deep
    have condition := expr_json fuel condition exact.append.1 (by omega)
    have thenBody := stmts_json fuel thenBody exact.append.2.append.1 (by omega)
    have elseBody := stmts_json fuel elseBody exact.append.2.append.2 (by omega)
    simp [stmtKind, Stmt.kindJson, kind_tagged, kindRecord_object, members, List.lookup_cons, list,
      condition, thenBody, elseBody, StmtKind.mapDecimals]
  | fuel + 1, .forEach name iterable body, exact, deep => by
    rw [StmtKind.nodes, StmtKind.decimals] at exact
    simp only [Stmt.kindJson, depth_tagged, Json.depth, Json.depthMembers] at deep
    have iterable := expr_json fuel iterable exact.append.1 (by omega)
    have body := stmts_json fuel body exact.append.2 (by omega)
    simp [stmtKind, Stmt.kindJson, kind_tagged, kindRecord_object, members,
      List.lookup_cons, text, list, iterable, body, StmtKind.mapDecimals]
  | fuel + 1, .returns value, exact, deep => by
    rw [StmtKind.nodes, StmtKind.decimals] at exact
    rw [Stmt.kindJson, depth_tagged] at deep
    rw [Stmt.kindJson, StmtKind.mapDecimals, stmtKind, kind_tagged, pure_bind]
    show (do
      let v ← option (expr form fuel) (Expr.jsonOption NodeId.json value)
      return StmtKind.returns v) = _
    rw [exprOption_json _ value exact (Nat.le_of_succ_le_succ deep), pure_bind]
  | fuel + 1, .expr e, exact, deep => by
    rw [StmtKind.nodes, StmtKind.decimals] at exact
    rw [Stmt.kindJson, depth_tagged] at deep
    rw [Stmt.kindJson, StmtKind.mapDecimals, stmtKind, kind_tagged, pure_bind]
    show (do return StmtKind.expr (← expr form fuel (e.json NodeId.json))) = _
    rw [expr_json _ e exact (Nat.le_of_succ_le_succ deep), pure_bind]
  | fuel + 1, .assign target value, exact, deep => by
    rw [StmtKind.nodes, StmtKind.decimals] at exact
    simp only [Stmt.kindJson, depth_tagged, Json.depth, Json.depthMembers] at deep
    have target := expr_json fuel target exact.append.1 (by omega)
    have value := expr_json fuel value exact.append.2 (by omega)
    simp [stmtKind, Stmt.kindJson, kind_tagged, kindRecord_object, members,
      List.lookup_cons, target, value, StmtKind.mapDecimals]

theorem stmts_json : ∀ (fuel : Nat) (xs : List Stmt),
    Exact (Stmt.allNodes xs) (Stmt.allDecimals xs) →
    Json.depthItems (Stmt.jsonList NodeId.json xs) ≤ fuel →
    (Stmt.jsonList NodeId.json xs).mapM (stmt form fuel) =
      pure (Stmt.mapAllDecimals Decimal.reread xs)
  | fuel, [], exact, deep => by
    rw [Stmt.jsonList, Stmt.mapAllDecimals, List.mapM_nil]
  | fuel, x :: rest, exact, deep => by
    rw [Stmt.allNodes, Stmt.allDecimals] at exact
    rw [Stmt.jsonList, Json.depthItems, Nat.max_le] at deep
    rw [Stmt.jsonList, Stmt.mapAllDecimals, List.mapM_cons, stmt_json _ x exact.append.1 deep.1,
      stmts_json _ rest exact.append.2 deep.2, pure_bind, pure_bind]

end

end Decode

/-! ## Scripts -/

/-- A script whose nodes have all been given their identities comes back from its document, however
it is handed over and however deep it is, and is written the same again. Its decimals come back as
the same numbers, with the same digits and scales but for zeros with a scale and for scales that
stand for up to fifteen zeros before the point. -/
theorem Script.json_round_trip (form : ScriptForm) (p : Script)
    (given : ∀ n ∈ p.nodes, ∃ k, n.id = .given k)
    (range : ∀ d ∈ p.decimals, Decimal.scaleInRange d.scale = true) :
    Script.ofJson? form (p.json NodeId.json) = some (p.mapDecimals Decimal.reread) ∧
      (p.mapDecimals Decimal.reread).json NodeId.json = p.json NodeId.json ∧
      ∀ d : Decimal, d.reread.value = d.value ∧
        (¬(d.digits = 0 ∧ d.scale ≠ 0) → ¬(-15 ≤ d.scale ∧ d.scale ≤ -1) → d.reread = d) := by
  have deep : Json.depthItems (Stmt.jsonList NodeId.json p.statements) ≤
      (p.json NodeId.json).depth := by
    simp only [Script.json, Json.depth, Json.depthMembers]
    omega
  have read := Decode.stmts_json form _ p.statements ⟨given, range⟩ deep
  refine ⟨?_, json_mapDecimals Decimal.toText_reread p, fun d =>
    ⟨d.value_reread, fun zero zeros => Decimal.reread_eq ?_ ?_⟩⟩
  · unfold Script.ofJson?
    generalize (p.json NodeId.json).depth = fuel at read
    simp [Script.json, Decode.record, Decode.members, Decode.list, read, Script.mapDecimals]
  · exact fun none => by_contra fun scaled => zero ⟨none, scaled⟩
  · unfold Decimal.trailingZeros
    omega

/-- Decimals of all forms, in a method, in a loop and in an argument. -/
def exchangeScript : Script :=
  let node (n : UInt32) : NodeRef := ⟨.given n, some ⟨n.toUInt64, 70⟩⟩
  let decimal (n : UInt32) (digits scale : Int) : Expr :=
    ⟨node n, .literal (.decimal ⟨digits, scale⟩)⟩
  ⟨[⟨node 1, .letVar ⟨"box", none, some ⟨node 2, .object (some "Box")
      [⟨node 3, ⟨"size", some "Decimal", some (decimal 4 0 3)⟩⟩, ⟨node 5, ⟨"left", none, none⟩⟩]
      [⟨node 6, ⟨"grow", [⟨"by", some "Decimal"⟩, ⟨"times", none⟩], some "Decimal",
        [⟨node 7, .returns (some ⟨node 8, .binary .add (decimal 9 12 (-4))
          ⟨node 10, .variable "by"⟩⟩)⟩]⟩⟩]⟩⟩⟩,
    ⟨node 11, .forEach "i" ⟨node 12, .call "range" [⟨node 13, .literal (.integer (-10000000000))⟩,
      ⟨node 14, .group ⟨node 15, .literal (.integer 3)⟩⟩]⟩
      [⟨node 16, .ifElse ⟨node 17, .literal (.boolean true)⟩
        [⟨node 18, .assign ⟨node 19, .property ⟨node 20, .variable "box"⟩ "left"⟩
          (decimal 21 (-1) 9)⟩] [⟨node 22, .returns none⟩]⟩]⟩,
    ⟨node 23, .expr ⟨node 24, .invoke ⟨node 25, .variable "box"⟩ "grow"
      [decimal 26 7 (-20), ⟨node 27, .literal (.character 'x')⟩]⟩⟩]⟩

theorem Script.json_round_trip_exchange :
    (∀ n ∈ exchangeScript.nodes, ∃ k, n.id = .given k) ∧
    (∀ d ∈ exchangeScript.decimals, Decimal.scaleInRange d.scale = true) ∧
    Script.ofJson? .document (exchangeScript.json NodeId.json) =
      some (exchangeScript.mapDecimals Decimal.reread) ∧
    (exchangeScript.mapDecimals Decimal.reread).decimals =
      [⟨0, 0⟩, ⟨120000, 0⟩, ⟨-1, 9⟩, ⟨7, -20⟩] ∧
    (exchangeScript.mapDecimals Decimal.reread).json NodeId.json =
      exchangeScript.json NodeId.json := by
  have given : ∀ n ∈ exchangeScript.nodes, ∃ k, n.id = .given k := by
    have all : exchangeScript.nodes.all (fun n => n.id matches .given _) = true := by decide
    intro n mem
    have given := List.all_eq_true.mp all n mem
    split at given
    case h_1 k same => exact ⟨k, same⟩
    case h_2 => cases given
  have range : ∀ d ∈ exchangeScript.decimals, Decimal.scaleInRange d.scale = true := by decide
  obtain ⟨read, written, _⟩ := Script.json_round_trip .document exchangeScript given range
  exact ⟨given, range, read, by decide, written⟩

end GradualScript
