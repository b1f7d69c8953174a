/-
# GradualScript.Run.Error -- why a run fails

Each constructor is one thing that can go wrong while a script runs, with what its message has to
name. The kind of fault and the message are functions of the cause. Messages speak of the kinds of
values: types do not exist any more when a script runs.
-/

import GradualScript.Diagnostic
import GradualScript.Run.Value

namespace GradualScript

/-- Why a run fails. -/
inductive EvalError where
  | variableDefined (name : String)
  | functionDefined (name : String)
  | fieldDefined (name : String)
  | methodDefined (name : String)
  | duplicateParameter (name : String)
  | thisParameter
  | undefinedVariable (name : String)
  | undefinedFunction (name : String)
  | undefinedProperty (name : String)
  | undefinedMethod (name : String)
  | conditionNotBoolean (found : Kind)
  | notIterable (found : Kind)
  | returnOutsideFunction
  | badTarget
  | notObject (found : Kind)
  | notFunction (name : String) (found : Kind)
  | notMethod (name : String) (found : Kind)
  | noReceiver (method : String)
  | argumentCount (callee : String) (expected found : Nat)
  | rangeArguments (first second : Kind)
  | operandNotBoolean (side : Side) (op : BinaryOp) (found : Kind)
  | leftNotNumeric (op : BinaryOp) (found : Kind)
  | leftNotComparable (op : BinaryOp) (found : Kind)
  | rightMismatch (op : BinaryOp) (expected found : Kind)
  | invalidSum (left right : Kind)
  | operandsDiffer (op : BinaryOp) (left right : Kind)
  | divisionByZero
deriving DecidableEq, Repr

namespace EvalError

def kind : EvalError → FaultKind
  | variableDefined _ | functionDefined _ | fieldDefined _ | methodDefined _
  | duplicateParameter _ | thisParameter
  | undefinedVariable _ | undefinedFunction _ | undefinedProperty _ | undefinedMethod _ => .name
  | badTarget | notObject _ => .structural
  | returnOutsideFunction => .controlFlow
  | divisionByZero => .arithmetic
  | _ => .type

def message : EvalError → String
  | variableDefined name => s!"variable `{name}` is already defined"
  | functionDefined name => s!"function `{name}` is already defined"
  | fieldDefined name => s!"field `{name}` is already defined"
  | methodDefined name => s!"method `{name}` is already defined"
  | duplicateParameter name => s!"duplicate parameter `{name}`"
  | thisParameter => "a method parameter cannot be named `this`"
  | undefinedVariable name => s!"undefined variable `{name}`"
  | undefinedFunction name => s!"undefined function `{name}`"
  | undefinedProperty name => s!"undefined property `{name}`"
  | undefinedMethod name => s!"undefined method `{name}`"
  | conditionNotBoolean found => s!"condition must be Boolean, found {found.name}"
  | notIterable found => s!"expected Iterable, found {found.name}"
  | returnOutsideFunction => Diagnostic.returnMessage
  | badTarget => "assignment target must be a variable or a property"
  | notObject found => s!"receiver must be an object, found {found.name}"
  | notFunction name found => s!"`{name}` is not a function, found {found.name}"
  | notMethod name found => s!"`{name}` is not a method, found {found.name}"
  | noReceiver method => s!"method `{method}` called without a receiver"
  | argumentCount callee expected found =>
    s!"`{callee}` expects {expected} argument(s), found {found}"
  | rangeArguments first second =>
    s!"`range` expects Integer arguments, found {first.name} and {second.name}"
  | operandNotBoolean side op found =>
    s!"{side.text} operand of {op.symbol} must be Boolean, found {found.name}"
  | leftNotNumeric op found =>
    s!"left operand of {op.symbol} must be numeric, found {found.name}"
  | leftNotComparable op found =>
    s!"left operand of {op.symbol} must be comparable, found {found.name}"
  | rightMismatch op expected found =>
    s!"right operand of {op.symbol} must be {expected.name}, found {found.name}"
  | invalidSum left right => s!"invalid operand types for +: {left.name} and {right.name}"
  | operandsDiffer op left right =>
    s!"operands of {op.symbol} must be numeric and of the same kind, found {left.name} and "
      ++ right.name
  | divisionByZero => Diagnostic.divisionMessage

end EvalError

/-- The report of a failed run. -/
def Located.runDiagnostic (fault : Located EvalError) : Diagnostic :=
  ⟨.running, fault.cause.kind, fault.cause.message, none, fault.site⟩

end GradualScript
