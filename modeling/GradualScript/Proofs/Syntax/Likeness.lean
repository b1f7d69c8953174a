/-
# GradualScript.Proofs.Syntax.Likeness -- scripts that say the same

What a script does depends on less than its tree. Annotations are for the checker, the identity and
the span of a node are for messages, and what stands after a `RETURN` is never reached. Scripts that
differ only in such things are alike (`Script.Alike`), and `Proofs.Run.InStep` shows that they are
run alike.

Which nodes of two scripts correspond is a parameter of the relation. For scripts with the same bare
tree (`Script.bare`: no annotations, no identities, no spans), the nodes at one place correspond.
They stand at one place in the two lists of nodes (`Script.nodes`), which are in the order of the
text.
-/

import GradualScript.Syntax.Script

namespace GradualScript

/-! ## Nodes -/

mutual

/-- The nodes of an expression, in the order of the text: its own node first. -/
def Expr.nodes : Expr → List NodeRef
  | ⟨node, kind⟩ => node :: kind.nodes

/-- The nodes of the parts, in the order of the text; those of methods come after those of
fields. -/
def ExprKind.nodes : ExprKind → List NodeRef
  | .literal _ | .variable _ => []
  | .group inner => inner.nodes
  | .binary _ left right => left.nodes ++ right.nodes
  | .property receiver _ => receiver.nodes
  | .call _ arguments => Expr.allNodes arguments
  | .invoke receiver _ arguments => receiver.nodes ++ Expr.allNodes arguments
  | .object _ fields methods => Field.allNodes fields ++ Method.allNodes methods

def Expr.allNodes : List Expr → List NodeRef
  | [] => []
  | e :: rest => e.nodes ++ Expr.allNodes rest

def Expr.optionNodes : Option Expr → List NodeRef
  | none => []
  | some e => e.nodes

def Binding.nodes : Binding → List NodeRef
  | ⟨_, _, value⟩ => Expr.optionNodes value

def Field.allNodes : List Field → List NodeRef
  | [] => []
  | ⟨node, binding⟩ :: rest => node :: (binding.nodes ++ Field.allNodes rest)

def Definition.nodes : Definition → List NodeRef
  | ⟨_, _, _, body⟩ => Stmt.allNodes body

def Method.allNodes : List Method → List NodeRef
  | [] => []
  | ⟨node, definition⟩ :: rest => node :: (definition.nodes ++ Method.allNodes rest)

def Stmt.nodes : Stmt → List NodeRef
  | ⟨node, kind⟩ => node :: kind.nodes

/-- The nodes of the parts, in the order of the text. -/
def StmtKind.nodes : StmtKind → List NodeRef
  | .letVar binding => binding.nodes
  | .defFun definition => definition.nodes
  | .ifElse condition thenBody elseBody =>
    condition.nodes ++ (Stmt.allNodes thenBody ++ Stmt.allNodes elseBody)
  | .forEach _ iterable body => iterable.nodes ++ Stmt.allNodes body
  | .returns value => Expr.optionNodes value
  | .expr e => e.nodes
  | .assign target value => target.nodes ++ value.nodes

def Stmt.allNodes : List Stmt → List NodeRef
  | [] => []
  | x :: rest => x.nodes ++ Stmt.allNodes rest

end

theorem Expr.node_mem_nodes (e : Expr) : e.node ∈ e.nodes := by
  obtain ⟨node, kind⟩ := e
  rw [Expr.nodes]
  exact List.mem_cons_self

/-- The nodes of a script: of its statements, expressions, fields and methods. -/
def Script.nodes (p : Script) : List NodeRef := Stmt.allNodes p.statements

/-! ## Bare scripts -/

/-- A parameter without its annotation. -/
def Param.bare (p : Param) : Param := ⟨p.name, none⟩

mutual

/-- An expression without annotations, and with the same node everywhere. -/
def Expr.bare : Expr → Expr
  | ⟨_, kind⟩ => ⟨default, kind.bare⟩

/-- Parts keep their kind, and names, operators and constants stay. -/
def ExprKind.bare : ExprKind → ExprKind
  | .literal value => .literal value
  | .group inner => .group inner.bare
  | .binary op left right => .binary op left.bare right.bare
  | .variable name => .variable name
  | .property receiver name => .property receiver.bare name
  | .call name arguments => .call name (Expr.allBare arguments)
  | .invoke receiver name arguments => .invoke receiver.bare name (Expr.allBare arguments)
  | .object name fields methods => .object name (Field.allBare fields) (Method.allBare methods)

def Expr.allBare : List Expr → List Expr
  | [] => []
  | e :: rest => e.bare :: Expr.allBare rest

def Expr.optionBare : Option Expr → Option Expr
  | none => none
  | some e => some e.bare

def Binding.bare : Binding → Binding
  | ⟨name, _, value⟩ => ⟨name, none, Expr.optionBare value⟩

def Field.allBare : List Field → List Field
  | [] => []
  | ⟨_, binding⟩ :: rest => ⟨default, binding.bare⟩ :: Field.allBare rest

/-- A definition without the types of its parameters and of its result. -/
def Definition.bare : Definition → Definition
  | ⟨name, params, _, body⟩ => ⟨name, params.map Param.bare, none, Stmt.allBare body⟩

def Method.allBare : List Method → List Method
  | [] => []
  | ⟨_, definition⟩ :: rest => ⟨default, definition.bare⟩ :: Method.allBare rest

def Stmt.bare : Stmt → Stmt
  | ⟨_, kind⟩ => ⟨default, kind.bare⟩

/-- Statements keep their kind. -/
def StmtKind.bare : StmtKind → StmtKind
  | .letVar binding => .letVar binding.bare
  | .defFun definition => .defFun definition.bare
  | .ifElse condition thenBody elseBody =>
    .ifElse condition.bare (Stmt.allBare thenBody) (Stmt.allBare elseBody)
  | .forEach name iterable body => .forEach name iterable.bare (Stmt.allBare body)
  | .returns value => .returns (Expr.optionBare value)
  | .expr e => .expr e.bare
  | .assign target value => .assign target.bare value.bare

def Stmt.allBare : List Stmt → List Stmt
  | [] => []
  | x :: rest => x.bare :: Stmt.allBare rest

end

/-- A script without its annotations, and with the same node everywhere. -/
def Script.bare (p : Script) : Script := ⟨Stmt.allBare p.statements⟩

/-! ## What the checker alone refuses -/

/-- Whether an expression can be assigned to. -/
def ExprKind.isTarget : ExprKind → Bool
  | .variable _ | .property _ _ => true
  | _ => false

def StmtKind.isReturn : StmtKind → Bool
  | .returns _ => true
  | _ => false

mutual

/-- Whether a `RETURN` stands in a statement, outside of all definitions in it. -/
def Stmt.hasReturn : Stmt → Bool
  | ⟨_, kind⟩ => kind.hasReturn

/-- Whether there is a `RETURN` in the statement, or in a block of it. Those in the body of a
function are not counted. -/
def StmtKind.hasReturn : StmtKind → Bool
  | .returns _ => true
  | .ifElse _ thenBody elseBody => Stmt.anyReturn thenBody || Stmt.anyReturn elseBody
  | .forEach _ _ body => Stmt.anyReturn body
  | .letVar _ | .defFun _ | .expr _ | .assign _ _ => false

def Stmt.anyReturn : List Stmt → Bool
  | [] => false
  | x :: rest => x.hasReturn || Stmt.anyReturn rest

end

/-- Whether a `RETURN` stands outside of all definitions and methods of a script. -/
def Script.hasReturn (p : Script) : Bool := Stmt.anyReturn p.statements

/-! ## Likeness -/

/-- What may be different in two scripts that are alike. -/
structure Likeness where
  /-- The nodes that correspond to each other. -/
  nodes : NodeRef → NodeRef → Prop
  /-- Whether there may be what only the checker refuses: a `RETURN` outside of all definitions, and
  an assignment to what is neither a variable nor a property. -/
  lax : Prop

mutual

def Expr.Alike (L : Likeness) : Expr → Expr → Prop
  | ⟨node, kind⟩, e => L.nodes node e.node ∧ kind.Alike L e.kind

/-- Expressions of one kind with the same names, operators and constants, whose parts are alike. -/
def ExprKind.Alike (L : Likeness) : ExprKind → ExprKind → Prop
  | .literal value, k => k = .literal value
  | .group inner, k => ∃ e, k = .group e ∧ inner.Alike L e
  | .binary op left right, k => ∃ l r, k = .binary op l r ∧ left.Alike L l ∧ right.Alike L r
  | .variable name, k => k = .variable name
  | .property receiver name, k => ∃ e, k = .property e name ∧ receiver.Alike L e
  | .call name arguments, k => ∃ es, k = .call name es ∧ Expr.AllAlike L arguments es
  | .invoke receiver name arguments, k => ∃ e es, k = .invoke e name es ∧ receiver.Alike L e ∧
      Expr.AllAlike L arguments es
  | .object name fields methods, k => ∃ fs ms, k = .object name fs ms ∧
      Field.AllAlike L fields fs ∧ Method.AllAlike L methods ms

def Expr.AllAlike (L : Likeness) : List Expr → List Expr → Prop
  | [], es => es = []
  | e :: rest, es => ∃ e' more, es = e' :: more ∧ e.Alike L e' ∧ Expr.AllAlike L rest more

def Expr.OptionAlike (L : Likeness) : Option Expr → Option Expr → Prop
  | none, value => value = none
  | some e, value => ∃ e', value = some e' ∧ e.Alike L e'

/-- Annotations may be different. -/
def Binding.Alike (L : Likeness) : Binding → Binding → Prop
  | ⟨name, _, value⟩, b => b.name = name ∧ Expr.OptionAlike L value b.value

def Field.AllAlike (L : Likeness) : List Field → List Field → Prop
  | [], fs => fs = []
  | ⟨node, binding⟩ :: rest, fs => ∃ f more, fs = f :: more ∧ L.nodes node f.node ∧
      binding.Alike L f.binding ∧ Field.AllAlike L rest more

/-- Annotations may be different. -/
def Definition.Alike (L : Likeness) : Definition → Definition → Prop
  | ⟨name, params, _, body⟩, d => d.name = name ∧ d.paramNames = params.map Param.name ∧
      Stmt.AllAlike L body d.body

def Method.AllAlike (L : Likeness) : List Method → List Method → Prop
  | [], ms => ms = []
  | ⟨node, definition⟩ :: rest, ms => ∃ m more, ms = m :: more ∧ L.nodes node m.node ∧
      definition.Alike L m.definition ∧ Method.AllAlike L rest more

def Stmt.Alike (L : Likeness) : Stmt → Stmt → Prop
  | ⟨node, kind⟩, x => L.nodes node x.node ∧ kind.Alike L x.kind

/-- Statements of one kind with the same names, whose parts are alike. -/
def StmtKind.Alike (L : Likeness) : StmtKind → StmtKind → Prop
  | .letVar binding, k => ∃ b, k = .letVar b ∧ binding.Alike L b
  | .defFun definition, k => ∃ d, k = .defFun d ∧ definition.Alike L d
  | .ifElse condition thenBody elseBody, k => ∃ c a b, k = .ifElse c a b ∧ condition.Alike L c ∧
      Stmt.AllAlike L thenBody a ∧ Stmt.AllAlike L elseBody b
  | .forEach name iterable body, k => ∃ i b, k = .forEach name i b ∧ iterable.Alike L i ∧
      Stmt.AllAlike L body b
  | .returns value, k => ∃ v, k = .returns v ∧ Expr.OptionAlike L value v
  | .expr e, k => ∃ e', k = .expr e' ∧ e.Alike L e'
  | .assign target value, k => ∃ t v, k = .assign t v ∧ target.Alike L t ∧ value.Alike L v ∧
      (target.kind.isTarget = true ∨ L.lax)

/-- What stands after a `RETURN` may be different. -/
def Stmt.AllAlike (L : Likeness) : List Stmt → List Stmt → Prop
  | [], ys => ys = []
  | x :: rest, ys => ∃ y more, ys = y :: more ∧ x.Alike L y ∧
      (x.kind.isReturn = true ∨ Stmt.AllAlike L rest more)

end

variable {L : Likeness}

theorem Expr.Alike.node {e e' : Expr} (alike : e.Alike L e') : L.nodes e.node e'.node := by
  obtain ⟨node, kind⟩ := e
  rw [Expr.Alike] at alike
  exact alike.1

/-- Both can be assigned to, or none of them. -/
theorem ExprKind.Alike.isTarget_eq {k k' : ExprKind} (alike : k.Alike L k') :
    k'.isTarget = k.isTarget := by
  cases k <;> rw [ExprKind.Alike] at alike
  case literal | «variable» => rw [alike]
  case object | binary | invoke =>
    obtain ⟨_, _, rfl, _⟩ := alike
    rfl
  case group | property | call =>
    obtain ⟨_, rfl, _⟩ := alike
    rfl

theorem Stmt.Alike.node {x y : Stmt} (alike : x.Alike L y) : L.nodes x.node y.node := by
  obtain ⟨node, kind⟩ := x
  rw [Stmt.Alike] at alike
  exact alike.1

namespace Definition.Alike

variable {d e : Definition}

/-- Functions that are alike have one name. -/
theorem name_eq (alike : d.Alike L e) : e.name = d.name := by
  obtain ⟨name, params, returns, body⟩ := d
  rw [Definition.Alike] at alike
  exact alike.1

theorem paramNames_eq (alike : d.Alike L e) : e.paramNames = d.paramNames := by
  obtain ⟨name, params, returns, body⟩ := d
  rw [Definition.Alike] at alike
  exact alike.2.1

theorem body (alike : d.Alike L e) : Stmt.AllAlike L d.body e.body := by
  obtain ⟨name, params, returns, body⟩ := d
  rw [Definition.Alike] at alike
  exact alike.2.2

end Definition.Alike

/-- Two scripts differ only as `L` allows. -/
def Script.Alike (L : Likeness) (p q : Script) : Prop :=
  Stmt.AllAlike L p.statements q.statements ∧ (p.hasReturn = true → L.lax)

/-! ## Scripts with the same bare tree -/

namespace Likeness

variable {n m : NodeRef} {ns ms ns' ms' : List NodeRef} {P Q : Prop}

/-- There are as many nodes on both sides, and if the ones at one place correspond, then `P`. -/
def Given (L : Likeness) (ns ms : List NodeRef) (P : Prop) : Prop :=
  ns.length = ms.length ∧ ((∀ pair ∈ ns.zip ms, L.nodes pair.1 pair.2) → P)

namespace Given

theorem nil (holds : P) : L.Given [] [] P := ⟨rfl, fun _ => holds⟩

/-- A node corresponds to the node at its place. -/
theorem cons (given : L.Given ns ms P) : L.Given (n :: ns) (m :: ms) (L.nodes n m ∧ P) := by
  refine ⟨congrArg (· + 1) given.1, fun pairs => ?_⟩
  rw [List.zip_cons_cons, List.forall_mem_cons] at pairs
  exact ⟨pairs.1, given.2 pairs.2⟩

/-- Parts that correspond, one after the other. -/
theorem append (first : L.Given ns ms P) (second : L.Given ns' ms' Q) :
    L.Given (ns ++ ns') (ms ++ ms') (P ∧ Q) := by
  refine ⟨?_, fun pairs => ?_⟩
  · rw [List.length_append, List.length_append, first.1, second.1]
  · -- The first parts are equally long, so no node is paired off with one of the other part.
    rw [List.zip_append first.1, List.forall_mem_append] at pairs
    exact ⟨first.2 pairs.1, second.2 pairs.2⟩

theorem imp (given : L.Given ns ms P) (next : P → Q) : L.Given ns ms Q :=
  ⟨given.1, fun pairs => next (given.2 pairs)⟩

end Given

end Likeness

mutual

-- Both trees are gone through at once. A bare tree shows every constructor of the tree it comes
-- from, so the two have one shape, and their lists of nodes fall into parts of the same lengths.
theorem Expr.given_bare (lax : L.lax) : ∀ {e e' : Expr}, e.bare = e'.bare →
    L.Given e.nodes e'.nodes (e.Alike L e')
  | ⟨node, kind⟩, ⟨node', kind'⟩, same => by
    rw [Expr.bare, Expr.bare, Expr.mk.injEq] at same
    rw [Expr.nodes, Expr.nodes, Expr.Alike]
    exact (ExprKind.given_bare lax same.2).cons

/-- Expressions that differ in nodes and annotations only are alike, given that their nodes
correspond. -/
theorem ExprKind.given_bare (lax : L.lax) : ∀ {k k' : ExprKind}, k.bare = k'.bare →
    L.Given k.nodes k'.nodes (k.Alike L k')
  | .literal value, k', same => by
    cases k' with
    | literal value' =>
      rw [ExprKind.bare, ExprKind.bare, ExprKind.literal.injEq] at same
      exact .nil (by rw [ExprKind.Alike, same])
    | _ => simp only [ExprKind.bare, reduceCtorEq] at same
  | .group inner, k', same => by
    cases k' with
    | group inner' =>
      rw [ExprKind.bare, ExprKind.bare, ExprKind.group.injEq] at same
      rw [ExprKind.nodes, ExprKind.nodes, ExprKind.Alike]
      exact (Expr.given_bare lax same).imp fun alike => ⟨_, rfl, alike⟩
    | _ => simp only [ExprKind.bare, reduceCtorEq] at same
  | .binary op left right, k', same => by
    cases k' with
    | binary op' left' right' =>
      rw [ExprKind.bare, ExprKind.bare, ExprKind.binary.injEq] at same
      obtain ⟨rfl, l, r⟩ := same
      rw [ExprKind.nodes, ExprKind.nodes, ExprKind.Alike]
      exact ((Expr.given_bare lax l).append (Expr.given_bare lax r)).imp
        fun ⟨left, right⟩ => ⟨_, _, rfl, left, right⟩
    | _ => simp only [ExprKind.bare, reduceCtorEq] at same
  | .variable name, k', same => by
    cases k' with
    | «variable» name' =>
      rw [ExprKind.bare, ExprKind.bare, ExprKind.variable.injEq] at same
      exact .nil (by rw [ExprKind.Alike, same])
    | _ => simp only [ExprKind.bare, reduceCtorEq] at same
  | .property receiver name, k', same => by
    cases k' with
    | property receiver' name' =>
      rw [ExprKind.bare, ExprKind.bare, ExprKind.property.injEq] at same
      obtain ⟨r, rfl⟩ := same
      rw [ExprKind.nodes, ExprKind.nodes, ExprKind.Alike]
      exact (Expr.given_bare lax r).imp fun alike => ⟨_, rfl, alike⟩
    | _ => simp only [ExprKind.bare, reduceCtorEq] at same
  | .call name arguments, k', same => by
    cases k' with
    | call name' arguments' =>
      rw [ExprKind.bare, ExprKind.bare, ExprKind.call.injEq] at same
      obtain ⟨rfl, all⟩ := same
      rw [ExprKind.nodes, ExprKind.nodes, ExprKind.Alike]
      exact (Expr.given_allBare lax all).imp fun alike => ⟨_, rfl, alike⟩
    | _ => simp only [ExprKind.bare, reduceCtorEq] at same
  | .invoke receiver name arguments, k', same => by
    cases k' with
    | invoke receiver' name' arguments' =>
      rw [ExprKind.bare, ExprKind.bare, ExprKind.invoke.injEq] at same
      obtain ⟨r, rfl, all⟩ := same
      rw [ExprKind.nodes, ExprKind.nodes, ExprKind.Alike]
      exact ((Expr.given_bare lax r).append (Expr.given_allBare lax all)).imp
        fun ⟨receiver, arguments⟩ => ⟨_, _, rfl, receiver, arguments⟩
    | _ => simp only [ExprKind.bare, reduceCtorEq] at same
  | .object name fields methods, k', same => by
    cases k' with
    | object name' fields' methods' =>
      rw [ExprKind.bare, ExprKind.bare, ExprKind.object.injEq] at same
      obtain ⟨rfl, fs, ms⟩ := same
      rw [ExprKind.nodes, ExprKind.nodes, ExprKind.Alike]
      exact ((Field.given_allBare lax fs).append (Method.given_allBare lax ms)).imp
        fun ⟨fields, methods⟩ => ⟨_, _, rfl, fields, methods⟩
    | _ => simp only [ExprKind.bare, reduceCtorEq] at same

theorem Expr.given_allBare (lax : L.lax) : ∀ {es es' : List Expr},
    Expr.allBare es = Expr.allBare es' →
    L.Given (Expr.allNodes es) (Expr.allNodes es') (Expr.AllAlike L es es')
  | [], [], _ => .nil (by rw [Expr.AllAlike])
  | e :: rest, e' :: rest', same => by
    rw [Expr.allBare, Expr.allBare, List.cons.injEq] at same
    rw [Expr.allNodes, Expr.allNodes, Expr.AllAlike]
    exact ((Expr.given_bare lax same.1).append (Expr.given_allBare lax same.2)).imp
      fun ⟨first, following⟩ => ⟨_, _, rfl, first, following⟩

theorem Expr.given_optionBare (lax : L.lax) : ∀ {value value' : Option Expr},
    Expr.optionBare value = Expr.optionBare value' →
    L.Given (Expr.optionNodes value) (Expr.optionNodes value') (Expr.OptionAlike L value value')
  | none, none, _ => .nil (by rw [Expr.OptionAlike])
  | some e, some e', same => by
    rw [Expr.optionBare, Expr.optionBare, Option.some.injEq] at same
    rw [Expr.optionNodes, Expr.optionNodes, Expr.OptionAlike]
    exact (Expr.given_bare lax same).imp fun alike => ⟨_, rfl, alike⟩

theorem Binding.given_bare (lax : L.lax) : ∀ {b b' : Binding}, b.bare = b'.bare →
    L.Given b.nodes b'.nodes (b.Alike L b')
  | ⟨name, ty, value⟩, ⟨name', ty', value'⟩, same => by
    rw [Binding.bare, Binding.bare, Binding.mk.injEq] at same
    obtain ⟨rfl, _, v⟩ := same
    rw [Binding.nodes, Binding.nodes, Binding.Alike]
    exact (Expr.given_optionBare lax v).imp fun alike => ⟨rfl, alike⟩

theorem Field.given_allBare (lax : L.lax) : ∀ {fs fs' : List Field},
    Field.allBare fs = Field.allBare fs' →
    L.Given (Field.allNodes fs) (Field.allNodes fs') (Field.AllAlike L fs fs')
  | [], [], _ => .nil (by rw [Field.AllAlike])
  | [], ⟨_, _⟩ :: _, same => by simp only [Field.allBare, reduceCtorEq] at same
  | ⟨node, binding⟩ :: rest, ⟨node', binding'⟩ :: rest', same => by
    rw [Field.allBare, Field.allBare, List.cons.injEq, Field.mk.injEq] at same
    rw [Field.allNodes, Field.allNodes, Field.AllAlike]
    exact ((Binding.given_bare lax same.1.2).append (Field.given_allBare lax same.2)).cons.imp
      fun ⟨node, first, following⟩ => ⟨_, _, rfl, node, first, following⟩

theorem Definition.given_bare (lax : L.lax) : ∀ {d d' : Definition}, d.bare = d'.bare →
    L.Given d.nodes d'.nodes (d.Alike L d')
  | ⟨name, params, returns, body⟩, ⟨name', params', returns', body'⟩, same => by
    rw [Definition.bare, Definition.bare, Definition.mk.injEq] at same
    obtain ⟨rfl, ps, _, b⟩ := same
    have names := congrArg (List.map Param.name) ps
    rw [List.map_map, List.map_map] at names
    rw [Definition.nodes, Definition.nodes, Definition.Alike]
    exact (Stmt.given_allBare lax b).imp fun alike => ⟨rfl, names.symm, alike⟩

theorem Method.given_allBare (lax : L.lax) : ∀ {ms ms' : List Method},
    Method.allBare ms = Method.allBare ms' →
    L.Given (Method.allNodes ms) (Method.allNodes ms') (Method.AllAlike L ms ms')
  | [], [], _ => .nil (by rw [Method.AllAlike])
  | [], ⟨_, _⟩ :: _, same => by simp only [Method.allBare, reduceCtorEq] at same
  | ⟨node, definition⟩ :: rest, ⟨node', definition'⟩ :: rest', same => by
    rw [Method.allBare, Method.allBare, List.cons.injEq, Method.mk.injEq] at same
    rw [Method.allNodes, Method.allNodes, Method.AllAlike]
    exact ((Definition.given_bare lax same.1.2).append (Method.given_allBare lax same.2)).cons.imp
      fun ⟨node, first, following⟩ => ⟨_, _, rfl, node, first, following⟩

theorem Stmt.given_bare (lax : L.lax) : ∀ {x x' : Stmt}, x.bare = x'.bare →
    L.Given x.nodes x'.nodes (x.Alike L x')
  | ⟨node, kind⟩, ⟨node', kind'⟩, same => by
    rw [Stmt.bare, Stmt.bare, Stmt.mk.injEq] at same
    rw [Stmt.nodes, Stmt.nodes, Stmt.Alike]
    exact (StmtKind.given_bare lax same.2).cons

/-- Statements that differ in nodes and annotations only are alike, given that their nodes
correspond. -/
theorem StmtKind.given_bare (lax : L.lax) : ∀ {k k' : StmtKind}, k.bare = k'.bare →
    L.Given k.nodes k'.nodes (k.Alike L k')
  | .letVar binding, k', same => by
    cases k' with
    | letVar binding' =>
      rw [StmtKind.bare, StmtKind.bare, StmtKind.letVar.injEq] at same
      rw [StmtKind.nodes, StmtKind.nodes, StmtKind.Alike]
      exact (Binding.given_bare lax same).imp fun alike => ⟨_, rfl, alike⟩
    | _ => simp only [StmtKind.bare, reduceCtorEq] at same
  | .defFun definition, k', same => by
    cases k' with
    | defFun definition' =>
      rw [StmtKind.bare, StmtKind.bare, StmtKind.defFun.injEq] at same
      rw [StmtKind.nodes, StmtKind.nodes, StmtKind.Alike]
      exact (Definition.given_bare lax same).imp fun alike => ⟨_, rfl, alike⟩
    | _ => simp only [StmtKind.bare, reduceCtorEq] at same
  | .ifElse condition thenBody elseBody, k', same => by
    cases k' with
    | ifElse condition' thenBody' elseBody' =>
      rw [StmtKind.bare, StmtKind.bare, StmtKind.ifElse.injEq] at same
      obtain ⟨c, a, b⟩ := same
      rw [StmtKind.nodes, StmtKind.nodes, StmtKind.Alike]
      exact ((Expr.given_bare lax c).append
        ((Stmt.given_allBare lax a).append (Stmt.given_allBare lax b))).imp
        fun ⟨condition, thenBody, elseBody⟩ => ⟨_, _, _, rfl, condition, thenBody, elseBody⟩
    | _ => simp only [StmtKind.bare, reduceCtorEq] at same
  | .forEach name iterable body, k', same => by
    cases k' with
    | forEach name' iterable' body' =>
      rw [StmtKind.bare, StmtKind.bare, StmtKind.forEach.injEq] at same
      obtain ⟨rfl, i, b⟩ := same
      rw [StmtKind.nodes, StmtKind.nodes, StmtKind.Alike]
      exact ((Expr.given_bare lax i).append (Stmt.given_allBare lax b)).imp
        fun ⟨iterable, body⟩ => ⟨_, _, rfl, iterable, body⟩
    | _ => simp only [StmtKind.bare, reduceCtorEq] at same
  | .returns value, k', same => by
    cases k' with
    | returns value' =>
      rw [StmtKind.bare, StmtKind.bare, StmtKind.returns.injEq] at same
      rw [StmtKind.nodes, StmtKind.nodes, StmtKind.Alike]
      exact (Expr.given_optionBare lax same).imp fun alike => ⟨_, rfl, alike⟩
    | _ => simp only [StmtKind.bare, reduceCtorEq] at same
  | .expr e, k', same => by
    cases k' with
    | expr e' =>
      rw [StmtKind.bare, StmtKind.bare, StmtKind.expr.injEq] at same
      rw [StmtKind.nodes, StmtKind.nodes, StmtKind.Alike]
      exact (Expr.given_bare lax same).imp fun alike => ⟨_, rfl, alike⟩
    | _ => simp only [StmtKind.bare, reduceCtorEq] at same
  | .assign target value, k', same => by
    cases k' with
    | assign target' value' =>
      rw [StmtKind.bare, StmtKind.bare, StmtKind.assign.injEq] at same
      rw [StmtKind.nodes, StmtKind.nodes, StmtKind.Alike]
      exact ((Expr.given_bare lax same.1).append (Expr.given_bare lax same.2)).imp
        fun ⟨target, value⟩ => ⟨_, _, rfl, target, value, Or.inr lax⟩
    | _ => simp only [StmtKind.bare, reduceCtorEq] at same

theorem Stmt.given_allBare (lax : L.lax) : ∀ {xs xs' : List Stmt},
    Stmt.allBare xs = Stmt.allBare xs' →
    L.Given (Stmt.allNodes xs) (Stmt.allNodes xs') (Stmt.AllAlike L xs xs')
  | [], [], _ => .nil (by rw [Stmt.AllAlike])
  | x :: rest, x' :: rest', same => by
    rw [Stmt.allBare, Stmt.allBare, List.cons.injEq] at same
    rw [Stmt.allNodes, Stmt.allNodes, Stmt.AllAlike]
    exact ((Stmt.given_bare lax same.1).append (Stmt.given_allBare lax same.2)).imp
      fun ⟨first, following⟩ => ⟨_, _, rfl, first, Or.inr following⟩

end

/-- The nodes at one place of two scripts correspond. -/
def Script.places (p q : Script) : Likeness := ⟨fun n m => (n, m) ∈ p.nodes.zip q.nodes, True⟩

/-- Scripts with the same bare tree are alike. -/
theorem Script.alike_of_bare {p q : Script} (same : p.bare = q.bare) : p.Alike (p.places q) q := by
  rw [Script.bare, Script.bare, Script.mk.injEq] at same
  exact ⟨(Stmt.given_allBare (L := p.places q) trivial same).2 fun _ mem => mem, fun _ => trivial⟩

end GradualScript
