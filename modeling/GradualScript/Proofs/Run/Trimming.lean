/-
# GradualScript.Proofs.Run.Trimming -- what stands after a `RETURN`

A `RETURN` ends the block that it stands in, and with it every branch, round and block around that
up to the nearest call, or the script where there is none. So the statements that follow it in its
block are never reached. A script is `trimmed` when they are taken out of all of its blocks, also
out of those in the bodies of functions and methods, which run when and where the closures are
called.

A script and its trimmed form are alike: likeness says nothing of what stands after a `RETURN`.
-/

import GradualScript.Proofs.Run.Erasure

namespace GradualScript

/-! ## Trimmed scripts -/

mutual

/-- An expression in which nothing stands after a `RETURN`, in the methods of its objects. -/
def Expr.trimmed : Expr → Expr
  | ⟨node, kind⟩ => ⟨node, kind.trimmed⟩

/-- Only the bodies of methods are cut. -/
def ExprKind.trimmed : ExprKind → ExprKind
  | .literal value => .literal value
  | .group inner => .group inner.trimmed
  | .binary op left right => .binary op left.trimmed right.trimmed
  | .variable name => .variable name
  | .property receiver name => .property receiver.trimmed name
  | .call name arguments => .call name (Expr.allTrimmed arguments)
  | .invoke receiver name arguments =>
    .invoke receiver.trimmed name (Expr.allTrimmed arguments)
  | .object name fields methods =>
    .object name (Field.allTrimmed fields) (Method.allTrimmed methods)

def Expr.allTrimmed : List Expr → List Expr
  | [] => []
  | e :: rest => e.trimmed :: Expr.allTrimmed rest

def Expr.optionTrimmed : Option Expr → Option Expr
  | none => none
  | some e => some e.trimmed

def Binding.trimmed : Binding → Binding
  | ⟨name, ty, value⟩ => ⟨name, ty, Expr.optionTrimmed value⟩

def Field.allTrimmed : List Field → List Field
  | [] => []
  | ⟨node, binding⟩ :: rest => ⟨node, binding.trimmed⟩ :: Field.allTrimmed rest

/-- The body is cut; name, parameters and declared result stay. -/
def Definition.trimmed : Definition → Definition
  | ⟨name, params, returns, body⟩ => ⟨name, params, returns, Stmt.allTrimmed body⟩

def Method.allTrimmed : List Method → List Method
  | [] => []
  | ⟨node, definition⟩ :: rest => ⟨node, definition.trimmed⟩ :: Method.allTrimmed rest

def Stmt.trimmed : Stmt → Stmt
  | ⟨node, kind⟩ => ⟨node, kind.trimmed⟩

/-- The blocks of a branch and of a loop are cut. -/
def StmtKind.trimmed : StmtKind → StmtKind
  | .letVar binding => .letVar binding.trimmed
  | .defFun definition => .defFun definition.trimmed
  | .ifElse condition thenBody elseBody =>
    .ifElse condition.trimmed (Stmt.allTrimmed thenBody) (Stmt.allTrimmed elseBody)
  | .forEach name iterable body => .forEach name iterable.trimmed (Stmt.allTrimmed body)
  | .returns value => .returns (Expr.optionTrimmed value)
  | .expr e => .expr e.trimmed
  | .assign target value => .assign target.trimmed value.trimmed

/-- The statements of a block up to the first that is a `RETURN`, each of them trimmed. -/
def Stmt.allTrimmed : List Stmt → List Stmt
  | [] => []
  | x :: rest =>
    if x.kind.isReturn then [x.trimmed] else x.trimmed :: Stmt.allTrimmed rest

end

/-- A script without what stands after the first `RETURN` of any of its blocks. -/
def Script.trimmed (p : Script) : Script := ⟨Stmt.allTrimmed p.statements⟩

/-- What is cut comes after a `RETURN`, which stays. -/
theorem StmtKind.isReturn_trimmed (k : StmtKind) : k.trimmed.isReturn = k.isReturn := by
  cases k <;> rw [StmtKind.trimmed] <;> rfl

theorem Stmt.isReturn_trimmed (x : Stmt) : x.trimmed.kind.isReturn = x.kind.isReturn := by
  obtain ⟨node, kind⟩ := x
  rw [Stmt.trimmed]
  exact kind.isReturn_trimmed

/-! ## Likeness -/

section

variable {L : Likeness}

mutual

-- Likeness goes from the shorter tree to the longer one as well: both runs have to be followed,
-- since either of them may be granted more nested calls than the other.
theorem Expr.alike_trimmed (same : ∀ n, L.nodes n n) (lax : L.lax) :
    ∀ e : Expr, e.Alike L e.trimmed ∧ e.trimmed.Alike L e
  | ⟨node, kind⟩ => by
    rw [Expr.trimmed, Expr.Alike, Expr.Alike]
    obtain ⟨forth, back⟩ := ExprKind.alike_trimmed same lax kind
    exact ⟨⟨same node, forth⟩, ⟨same node, back⟩⟩

/-- An expression and what is left of it do the same: the bodies of its methods do. -/
theorem ExprKind.alike_trimmed (same : ∀ n, L.nodes n n) (lax : L.lax) :
    ∀ k : ExprKind, k.Alike L k.trimmed ∧ k.trimmed.Alike L k
  | .literal value => by
    rw [ExprKind.trimmed, ExprKind.Alike]
    exact ⟨rfl, rfl⟩
  | .group inner => by
    rw [ExprKind.trimmed, ExprKind.Alike, ExprKind.Alike]
    obtain ⟨forth, back⟩ := Expr.alike_trimmed same lax inner
    exact ⟨⟨_, rfl, forth⟩, ⟨_, rfl, back⟩⟩
  | .binary op left right => by
    rw [ExprKind.trimmed, ExprKind.Alike, ExprKind.Alike]
    obtain ⟨forth, back⟩ := Expr.alike_trimmed same lax left
    obtain ⟨forth', back'⟩ := Expr.alike_trimmed same lax right
    exact ⟨⟨_, _, rfl, forth, forth'⟩, ⟨_, _, rfl, back, back'⟩⟩
  | .variable name => by
    rw [ExprKind.trimmed, ExprKind.Alike]
    exact ⟨rfl, rfl⟩
  | .property receiver name => by
    rw [ExprKind.trimmed, ExprKind.Alike, ExprKind.Alike]
    obtain ⟨forth, back⟩ := Expr.alike_trimmed same lax receiver
    exact ⟨⟨_, rfl, forth⟩, ⟨_, rfl, back⟩⟩
  | .call name arguments => by
    rw [ExprKind.trimmed, ExprKind.Alike, ExprKind.Alike]
    obtain ⟨forth, back⟩ := Expr.alike_allTrimmed same lax arguments
    exact ⟨⟨_, rfl, forth⟩, ⟨_, rfl, back⟩⟩
  | .invoke receiver name arguments => by
    rw [ExprKind.trimmed, ExprKind.Alike, ExprKind.Alike]
    obtain ⟨forth, back⟩ := Expr.alike_trimmed same lax receiver
    obtain ⟨forth', back'⟩ := Expr.alike_allTrimmed same lax arguments
    exact ⟨⟨_, _, rfl, forth, forth'⟩, ⟨_, _, rfl, back, back'⟩⟩
  | .object name fields methods => by
    rw [ExprKind.trimmed, ExprKind.Alike, ExprKind.Alike]
    obtain ⟨forth, back⟩ := Field.alike_allTrimmed same lax fields
    obtain ⟨forth', back'⟩ := Method.alike_allTrimmed same lax methods
    exact ⟨⟨_, _, rfl, forth, forth'⟩, ⟨_, _, rfl, back, back'⟩⟩

theorem Expr.alike_allTrimmed (same : ∀ n, L.nodes n n) (lax : L.lax) : ∀ es : List Expr,
    Expr.AllAlike L es (Expr.allTrimmed es) ∧ Expr.AllAlike L (Expr.allTrimmed es) es
  | [] => by
    rw [Expr.allTrimmed, Expr.AllAlike]
    exact ⟨rfl, rfl⟩
  | e :: rest => by
    rw [Expr.allTrimmed, Expr.AllAlike, Expr.AllAlike]
    obtain ⟨forth, back⟩ := Expr.alike_trimmed same lax e
    obtain ⟨forth', back'⟩ := Expr.alike_allTrimmed same lax rest
    exact ⟨⟨_, _, rfl, forth, forth'⟩, ⟨_, _, rfl, back, back'⟩⟩

theorem Expr.alike_optionTrimmed (same : ∀ n, L.nodes n n) (lax : L.lax) : ∀ value : Option Expr,
    Expr.OptionAlike L value (Expr.optionTrimmed value) ∧
      Expr.OptionAlike L (Expr.optionTrimmed value) value
  | none => by
    rw [Expr.optionTrimmed, Expr.OptionAlike]
    exact ⟨rfl, rfl⟩
  | some e => by
    rw [Expr.optionTrimmed, Expr.OptionAlike, Expr.OptionAlike]
    obtain ⟨forth, back⟩ := Expr.alike_trimmed same lax e
    exact ⟨⟨_, rfl, forth⟩, ⟨_, rfl, back⟩⟩

theorem Binding.alike_trimmed (same : ∀ n, L.nodes n n) (lax : L.lax) :
    ∀ b : Binding, b.Alike L b.trimmed ∧ b.trimmed.Alike L b
  | ⟨name, ty, value⟩ => by
    rw [Binding.trimmed, Binding.Alike, Binding.Alike]
    obtain ⟨forth, back⟩ := Expr.alike_optionTrimmed same lax value
    exact ⟨⟨rfl, forth⟩, ⟨rfl, back⟩⟩

theorem Field.alike_allTrimmed (same : ∀ n, L.nodes n n) (lax : L.lax) : ∀ fs : List Field,
    Field.AllAlike L fs (Field.allTrimmed fs) ∧ Field.AllAlike L (Field.allTrimmed fs) fs
  | [] => by
    rw [Field.allTrimmed, Field.AllAlike]
    exact ⟨rfl, rfl⟩
  | ⟨node, binding⟩ :: rest => by
    rw [Field.allTrimmed, Field.AllAlike, Field.AllAlike]
    obtain ⟨forth, back⟩ := Binding.alike_trimmed same lax binding
    obtain ⟨forth', back'⟩ := Field.alike_allTrimmed same lax rest
    exact ⟨⟨_, _, rfl, same node, forth, forth'⟩, ⟨_, _, rfl, same node, back, back'⟩⟩

/-- A definition keeps its name, and its body is like what is left of it. -/
theorem Definition.alike_trimmed (same : ∀ n, L.nodes n n) (lax : L.lax) :
    ∀ d : Definition, d.Alike L d.trimmed ∧ d.trimmed.Alike L d
  | ⟨name, params, returns, body⟩ => by
    rw [Definition.trimmed, Definition.Alike, Definition.Alike]
    obtain ⟨forth, back⟩ := Stmt.alike_allTrimmed same lax body
    exact ⟨⟨rfl, rfl, forth⟩, ⟨rfl, rfl, back⟩⟩

theorem Method.alike_allTrimmed (same : ∀ n, L.nodes n n) (lax : L.lax) : ∀ ms : List Method,
    Method.AllAlike L ms (Method.allTrimmed ms) ∧ Method.AllAlike L (Method.allTrimmed ms) ms
  | [] => by
    rw [Method.allTrimmed, Method.AllAlike]
    exact ⟨rfl, rfl⟩
  | ⟨node, definition⟩ :: rest => by
    rw [Method.allTrimmed, Method.AllAlike, Method.AllAlike]
    obtain ⟨forth, back⟩ := Definition.alike_trimmed same lax definition
    obtain ⟨forth', back'⟩ := Method.alike_allTrimmed same lax rest
    exact ⟨⟨_, _, rfl, same node, forth, forth'⟩, ⟨_, _, rfl, same node, back, back'⟩⟩

theorem Stmt.alike_trimmed (same : ∀ n, L.nodes n n) (lax : L.lax) :
    ∀ x : Stmt, x.Alike L x.trimmed ∧ x.trimmed.Alike L x
  | ⟨node, kind⟩ => by
    rw [Stmt.trimmed, Stmt.Alike, Stmt.Alike]
    obtain ⟨forth, back⟩ := StmtKind.alike_trimmed same lax kind
    exact ⟨⟨same node, forth⟩, ⟨same node, back⟩⟩

/-- A statement and what is left of it do the same: its blocks do. -/
theorem StmtKind.alike_trimmed (same : ∀ n, L.nodes n n) (lax : L.lax) :
    ∀ k : StmtKind, k.Alike L k.trimmed ∧ k.trimmed.Alike L k
  | .letVar binding => by
    rw [StmtKind.trimmed, StmtKind.Alike, StmtKind.Alike]
    obtain ⟨forth, back⟩ := Binding.alike_trimmed same lax binding
    exact ⟨⟨_, rfl, forth⟩, ⟨_, rfl, back⟩⟩
  | .defFun definition => by
    rw [StmtKind.trimmed, StmtKind.Alike, StmtKind.Alike]
    obtain ⟨forth, back⟩ := Definition.alike_trimmed same lax definition
    exact ⟨⟨_, rfl, forth⟩, ⟨_, rfl, back⟩⟩
  | .ifElse condition thenBody elseBody => by
    rw [StmtKind.trimmed, StmtKind.Alike, StmtKind.Alike]
    obtain ⟨forth, back⟩ := Expr.alike_trimmed same lax condition
    obtain ⟨thenForth, thenBack⟩ := Stmt.alike_allTrimmed same lax thenBody
    obtain ⟨elseForth, elseBack⟩ := Stmt.alike_allTrimmed same lax elseBody
    exact ⟨⟨_, _, _, rfl, forth, thenForth, elseForth⟩, ⟨_, _, _, rfl, back, thenBack, elseBack⟩⟩
  | .forEach name iterable body => by
    rw [StmtKind.trimmed, StmtKind.Alike, StmtKind.Alike]
    obtain ⟨forth, back⟩ := Expr.alike_trimmed same lax iterable
    obtain ⟨forth', back'⟩ := Stmt.alike_allTrimmed same lax body
    exact ⟨⟨_, _, rfl, forth, forth'⟩, ⟨_, _, rfl, back, back'⟩⟩
  | .returns value => by
    rw [StmtKind.trimmed, StmtKind.Alike, StmtKind.Alike]
    obtain ⟨forth, back⟩ := Expr.alike_optionTrimmed same lax value
    exact ⟨⟨_, rfl, forth⟩, ⟨_, rfl, back⟩⟩
  | .expr e => by
    rw [StmtKind.trimmed, StmtKind.Alike, StmtKind.Alike]
    obtain ⟨forth, back⟩ := Expr.alike_trimmed same lax e
    exact ⟨⟨_, rfl, forth⟩, ⟨_, rfl, back⟩⟩
  | .assign target value => by
    rw [StmtKind.trimmed, StmtKind.Alike, StmtKind.Alike]
    obtain ⟨forth, back⟩ := Expr.alike_trimmed same lax target
    obtain ⟨forth', back'⟩ := Expr.alike_trimmed same lax value
    exact ⟨⟨_, _, rfl, forth, forth', Or.inr lax⟩, ⟨_, _, rfl, back, back', Or.inr lax⟩⟩

theorem Stmt.alike_allTrimmed (same : ∀ n, L.nodes n n) (lax : L.lax) : ∀ xs : List Stmt,
    Stmt.AllAlike L xs (Stmt.allTrimmed xs) ∧ Stmt.AllAlike L (Stmt.allTrimmed xs) xs
  | [] => by
    rw [Stmt.allTrimmed, Stmt.AllAlike]
    exact ⟨rfl, rfl⟩
  | x :: rest => by
    obtain ⟨forth, back⟩ := Stmt.alike_trimmed same lax x
    rw [Stmt.allTrimmed, Stmt.AllAlike]
    by_cases returns : x.kind.isReturn = true
    · -- The block ends here on the one side, and goes on with anything on the other.
      rw [if_pos returns, Stmt.AllAlike]
      exact ⟨⟨_, _, rfl, forth, Or.inl returns⟩,
        ⟨_, _, rfl, back, Or.inl (x.isReturn_trimmed.trans returns)⟩⟩
    · obtain ⟨forth', back'⟩ := Stmt.alike_allTrimmed same lax rest
      rw [if_neg returns, Stmt.AllAlike]
      exact ⟨⟨_, _, rfl, forth, Or.inr forth'⟩, ⟨_, _, rfl, back, Or.inr back'⟩⟩

end

end

/-- Scripts whose nodes are the same. -/
def Likeness.identical : Likeness := ⟨Eq, True⟩

/-! ## Runs of trimmed scripts -/

namespace Script

/-- A script and what is left of it are alike, in both directions and at the same nodes. -/
theorem alike_trimmed (p : Script) :
    p.Alike .identical p.trimmed ∧ p.trimmed.Alike .identical p := by
  obtain ⟨forth, back⟩ :=
    Stmt.alike_allTrimmed (L := .identical) (fun _ => rfl) trivial p.statements
  exact ⟨⟨forth, fun _ => trivial⟩, ⟨back, fun _ => trivial⟩⟩

/-- Code after a `RETURN` is inert. A script and its trimmed form both finish or neither does, and
their ends look the same, for every depth that is granted to the one and to the other: the same
lines are written, and the values are printed and debugged the same, or the faults are of one kind
and message and at the same node. -/
theorem trimmed_runs_same (fixtures : Bool) (p : Script) :
    (p.Finishes fixtures ↔ p.trimmed.Finishes fixtures) ∧
      ∀ depth depth',
        SameEnd Eq (p.runWithin fixtures depth) (p.trimmed.runWithin fixtures depth') := by
  obtain ⟨forth, back⟩ := p.alike_trimmed
  refine ⟨⟨fun finishes => finishes.of_alike forth, fun finishes => finishes.of_alike back⟩,
    fun depth depth' => ?_⟩
  rcases Nat.le_total depth depth' with le | le
  · exact sameEnd_of_alike fixtures le forth
  · exact (sameEnd_of_alike fixtures le back).symm fun _ _ same => Eq.symm same

end Script

end GradualScript
