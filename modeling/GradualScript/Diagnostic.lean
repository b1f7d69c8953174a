/-
# GradualScript.Diagnostic -- how faults are reported

Checking and running fail in the same shape: a kind of fault from one list, a message, possibly a
hint, and the node that the fault belongs to. A fault is attributed once: the innermost node that
claims it keeps it (`located`). The code, the labels and the texts are functions of these parts.
-/

import GradualScript.Syntax.Node

namespace GradualScript

/-- The pass that found a fault. -/
inductive Pass where
  | checking
  | running
deriving DecidableEq, Repr, Inhabited

/-- The kinds of faults. -/
inductive FaultKind where
  /-- A name is undefined, or defined twice. -/
  | name
  /-- A type does not fit, an operand is bad, or a call has the wrong number of arguments. -/
  | type
  /-- A target or a receiver has the wrong shape. -/
  | structural
  /-- A division by zero. -/
  | arithmetic
  /-- A `RETURN` outside of any function. -/
  | controlFlow
deriving DecidableEq, Repr, Inhabited

namespace FaultKind

/-- The kind as it stands in texts. -/
def text : FaultKind → String
  | name => "name"
  | type => "type"
  | structural => "structural"
  | arithmetic => "arithmetic"
  | controlFlow => "control-flow"

/-- The kind as the last segment of a code. -/
def segment : FaultKind → String
  | controlFlow => "control_flow"
  | kind => kind.text

def ofText? : String → Option FaultKind
  | "name" => some name
  | "type" => some type
  | "structural" => some structural
  | "arithmetic" => some arithmetic
  | "control-flow" => some controlFlow
  | _ => none

end FaultKind

/-! ## Attribution -/

/-- Where a fault is: the node that it belongs to, and the range of text that is pointed at when it
is reported. The range is a datum of its own, put there together with the node; `inStep` says that
it is the range of that node, and has to be shown wherever a site is made or changed. -/
structure Site where
  node : NodeRef
  span : Option Span
  inStep : span = node.span
deriving DecidableEq, Repr

/-- The site of a node. -/
def Site.of (node : NodeRef) : Site := ⟨node, node.span, rfl⟩

@[simp] theorem Site.node_of (node : NodeRef) : (Site.of node).node = node := rfl

/-- A cause of failure, and where it is. -/
structure Located (ε : Type) where
  cause : ε
  site : Option Site := none
deriving DecidableEq, Repr

namespace Located

variable {ε : Type}

/-- The node that a fault belongs to. -/
def node (fault : Located ε) : Option NodeRef := fault.site.map Site.node

/-- Attributes a fault to `node`, unless it belongs to a node already. -/
def located (fault : Located ε) (node : NodeRef) : Located ε :=
  { fault with site := fault.site.or (some (.of node)) }

@[simp] theorem cause_located (fault : Located ε) (node : NodeRef) :
    (fault.located node).cause = fault.cause := rfl

@[simp] theorem node_located (fault : Located ε) (node : NodeRef) :
    (fault.located node).node = fault.node.or (some node) := by
  cases h : fault.site <;> simp [located, Located.node, h]

theorem located_of_node {fault : Located ε} {n : NodeRef} (attributed : fault.node = some n)
    (node : NodeRef) : fault.located node = fault := by
  obtain ⟨site, there, _⟩ := Option.map_eq_some_iff.mp attributed
  rw [located, there, Option.some_or, ← there]

/-- The first attribution stays. -/
theorem located_located (fault : Located ε) (first second : NodeRef) :
    (fault.located first).located second = fault.located first := by
  cases h : fault.site <;> simp [located, h]

end Located

/-! ## Reports -/

/-- A fault in the form in which it is reported. -/
structure Diagnostic where
  pass : Pass
  kind : FaultKind
  message : String
  help : Option String := none
  site : Option Site := none
deriving DecidableEq, Repr

/-- A range of source text that a report points at. -/
structure Label where
  offset : UInt64
  length : Nat
  text : String
deriving DecidableEq, Repr

/-- Named source text that labels point into. -/
structure SourceFile where
  name : String
  content : String
deriving DecidableEq, Repr

namespace Diagnostic

/-- What both passes say of a `RETURN` outside of any function. -/
def returnMessage : String := "return used outside of a function"

/-- What the checker adds to it. -/
def returnHelp : String := "`RETURN` may only appear inside a `DEF` body"

def divisionMessage : String := "division by zero"

/-- A `RETURN` outside of any function, as `pass` reports it. -/
def returnOutsideFunction : Pass → Diagnostic
  | .checking => ⟨.checking, .controlFlow, returnMessage, some returnHelp, none⟩
  | .running => ⟨.running, .controlFlow, returnMessage, none, none⟩

/-- A division by zero, which only running can find. -/
def divisionByZero : Diagnostic := ⟨.running, .arithmetic, divisionMessage, none, none⟩

/-- The node that a diagnostic belongs to. -/
def node (d : Diagnostic) : Option NodeRef := d.site.map Site.node

/-- The range of text that a diagnostic points at. -/
def span (d : Diagnostic) : Option Span := d.site.bind Site.span

/-- The range of a diagnostic is that of its node. -/
theorem span_of_node {d : Diagnostic} {n : NodeRef} (attributed : d.node = some n) :
    d.span = n.span := by
  obtain ⟨site, there, rfl⟩ := Option.map_eq_some_iff.mp attributed
  rw [span, there, Option.bind_some, site.inStep]

/-- Attributes a diagnostic to `node`, unless it belongs to a node already. -/
def located (d : Diagnostic) (node : NodeRef) : Diagnostic :=
  { d with site := d.site.or (some (.of node)) }

def withHelp (d : Diagnostic) (help : String) : Diagnostic := { d with help := some help }

/-- The code of a diagnostic: the pass and the kind. -/
def code (d : Diagnostic) : String :=
  let pass := match d.pass with
    | .checking => "analyze"
    | .running => "evaluate"
  "gradus::" ++ pass ++ "::" ++ d.kind.segment

/-- One label on the range of text that a diagnostic points at, if there is one. -/
def labels (d : Diagnostic) : List Label :=
  match d.span with
  | none => []
  | some span => [⟨span.start, span.length, d.kind.text ++ " error here"⟩]

end Diagnostic

end GradualScript
