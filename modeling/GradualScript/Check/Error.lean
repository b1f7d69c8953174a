/-
# GradualScript.Check.Error -- why a script is refused

Each constructor is one rule that a script can violate, with what its message has to name. The
kind of fault and the message are functions of the cause.
-/

import GradualScript.Diagnostic
import GradualScript.Syntax.Operator
import GradualScript.Ty.Basic

namespace GradualScript

/-- The two ways in which a member of an object is used. -/
inductive MemberUse where
  | property
  | method
deriving DecidableEq, Repr

namespace MemberUse

def noun : MemberUse → String
  | property => "property"
  | method => "method"

def plural : MemberUse → String
  | property => "properties"
  | method => "methods"

end MemberUse

/-- Why a script is refused. -/
inductive CheckError where
  | undefinedType (name : String)
  | undefinedVariable (name : String)
  | undefinedFunction (name : String)
  | undefinedMember (use : MemberUse) (name : String) (receiver : Ty)
  | noMembers (use : MemberUse) (receiver : Ty)
  | variableDefined (name : String)
  | functionDefined (name : String)
  | duplicateParameter (name : String)
  | conditionNotBoolean (found : Ty)
  | notIterable (found : Ty)
  | returnOutsideFunction
  | returnMismatch (expected found : Ty)
  | mismatch (expected found : Ty)
  | badTarget
  | notFunction (name : String) (found : Ty)
  | notMethod (name : String) (found : Ty)
  | argumentCount (callee : String) (expected found : Nat)
  | argumentMismatch (index : Nat) (callee : String) (expected found : Ty)
  | operandNotBoolean (side : Side) (op : BinaryOp) (found : Ty)
  | operandNotComparable (side : Side) (op : BinaryOp) (found : Ty)
  | operandsDiffer (op : BinaryOp) (left right : Ty)
  | operandsUnrelated (op : BinaryOp) (left right : Ty)
  | invalidOperands (op : BinaryOp) (left right : Ty)
deriving DecidableEq

namespace CheckError

def kind : CheckError → FaultKind
  | undefinedType _ | undefinedVariable _ | undefinedFunction _ | undefinedMember _ _ _
  | variableDefined _ | functionDefined _ | duplicateParameter _ => .name
  | noMembers _ _ | badTarget => .structural
  | returnOutsideFunction => .controlFlow
  | _ => .type

def message : CheckError → String
  | undefinedType name => s!"undefined type `{name}`"
  | undefinedVariable name => s!"undefined variable `{name}`"
  | undefinedFunction name => s!"undefined function `{name}`"
  | undefinedMember use name receiver =>
    s!"undefined {use.noun} `{name}` for type {receiver.display}"
  | noMembers use receiver => s!"type {receiver.display} has no {use.plural}"
  | variableDefined name => s!"variable `{name}` is already defined"
  | functionDefined name => s!"function `{name}` is already defined"
  | duplicateParameter name => s!"duplicate parameter `{name}`"
  | conditionNotBoolean found => s!"condition must be Boolean, found {found.display}"
  | notIterable found => s!"expected Iterable, found {found.display}"
  | returnOutsideFunction => Diagnostic.returnMessage
  | returnMismatch expected found =>
    s!"expected return type {expected.display}, found {found.display}"
  | mismatch expected found => s!"type mismatch: expected {expected.display}, found {found.display}"
  | badTarget => "assignment target must be a variable or a property"
  | notFunction name found => s!"`{name}` is not a function, found {found.display}"
  | notMethod name found => s!"`{name}` is not a method, found {found.display}"
  | argumentCount callee expected found =>
    s!"`{callee}` expects {expected} argument(s), found {found}"
  | argumentMismatch index callee expected found =>
    s!"argument {index} of `{callee}` must be {expected.display}, found {found.display}"
  | operandNotBoolean side op found =>
    s!"{side.text} operand of {op.symbol} must be Boolean, found {found.display}"
  | operandNotComparable side op found =>
    s!"{side.text} operand of {op.symbol} must be Comparable, found {found.display}"
  | operandsDiffer op left right =>
    s!"operands must have same type for {op.symbol}, found {left.display} and {right.display}"
  | operandsUnrelated op left right =>
    s!"operands must have compatible types for {op.symbol}, found {left.display} and "
      ++ right.display
  | invalidOperands op left right =>
    s!"invalid operand types for {op.symbol}: {left.display} and {right.display}"

/-- The hint that goes with a cause. -/
def help : CheckError → Option String
  | returnOutsideFunction => some Diagnostic.returnHelp
  | _ => none

end CheckError

/-- The report of a refused script. -/
def Located.checkDiagnostic (fault : Located CheckError) : Diagnostic :=
  ⟨.checking, fault.cause.kind, fault.cause.message, fault.cause.help, fault.site⟩

/-- The report of a scope that could not be changed: a fault of naming. -/
def ScopeError.diagnostic (pass : Pass) (error : ScopeError) : Diagnostic :=
  ⟨pass, .name, error.message, none, none⟩

end GradualScript
