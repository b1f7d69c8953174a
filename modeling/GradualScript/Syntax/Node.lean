/-
# GradualScript.Syntax.Node -- identity and position of a node

Every statement, expression, field and method of a script is a node. A node has an identity, by
which faults and typed scripts refer to it, and may know the range of source text that it was
parsed from.
-/

namespace GradualScript

/-- The identity of a node: a number that came with the script, or one that was allotted to a node
that came without. -/
inductive NodeId where
  | given (number : UInt32)
  | allotted (number : Nat)
deriving DecidableEq, Repr, Inhabited

/-- The number of a node. -/
def NodeId.number : NodeId → Nat
  | .given n => n.toNat
  | .allotted n => n

/-- A range of bytes of the source text. -/
structure Span where
  start : UInt64
  stop : UInt64
deriving DecidableEq, Repr, Inhabited

/-- Length of the range; zero if it ends before it starts. -/
def Span.length (s : Span) : Nat := s.stop.toNat - s.start.toNat

/-- What a fault says about the node that it belongs to. -/
structure NodeRef where
  id : NodeId
  span : Option Span
deriving DecidableEq, Repr, Inhabited

end GradualScript
