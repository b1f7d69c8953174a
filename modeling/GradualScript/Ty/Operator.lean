/-
# GradualScript.Ty.Operator -- the types of literals and of binary operations
-/

import GradualScript.Check.Error
import GradualScript.Syntax.Script
import GradualScript.Ty.Subtype

namespace GradualScript

/-- The type of a constant. -/
def Literal.ty : Literal → Ty
  | .nil => .nil
  | .boolean _ => .boolean
  | .integer _ => .integer
  | .decimal _ => .decimal
  | .character _ => .character
  | .string _ => .string

namespace BinaryOp

/-- The result of an operation on one operand of type `other` and one of type `Dynamic`. -/
def dynamicResult (other : Ty) : Ty :=
  match other with
  | .integer => .integer
  | .decimal => .decimal
  | _ => .dynamic

/-- The result of arithmetic on two operands, if it has one. Strings can only be added, and then
the other operand may be a number. -/
def arithmeticResult? (concat : Bool) : Ty → Ty → Option Ty
  | .dynamic, .dynamic => some .dynamic
  | .integer, .integer => some .integer
  | .decimal, .decimal => some .decimal
  | .string, .string => if concat then some .string else none
  | .string, .dynamic | .dynamic, .string => if concat then some .string else some .dynamic
  | .integer, .string | .decimal, .string => if concat then some .string else none
  | .string, .integer | .string, .decimal => if concat then some .string else none
  | .dynamic, other => some (dynamicResult other)
  | other, .dynamic => some (dynamicResult other)
  | _, _ => none

/-- Whether an operand may stand where a Boolean is wanted. -/
def isBooleanLike (t : Ty) : Bool := t == .boolean || t == .dynamic

/-- Whether an operand may be ordered. -/
def isComparableLike (h : Heap Ty) (t : Ty) : Bool := t.isSubtype h .comparable || t.isDynamic

/-- Both operands have to be Booleans, the left one first. -/
def logicalType (op : BinaryOp) (left right : Ty) : Except CheckError Ty :=
  if !isBooleanLike left then .error (.operandNotBoolean .left op left)
  else if !isBooleanLike right then .error (.operandNotBoolean .right op right)
  else .ok .boolean

/-- Both operands have to be comparable, the left one first, and of one type. -/
def orderingType (h : Heap Ty) (op : BinaryOp) (left right : Ty) : Except CheckError Ty :=
  if !isComparableLike h left then .error (.operandNotComparable .left op left)
  else if !isComparableLike h right then .error (.operandNotComparable .right op right)
  else if left != right && !left.isDynamic && !right.isDynamic then
    .error (.operandsDiffer op left right)
  else .ok .boolean

/-- Of two compared operands one has to be a subtype of the other. -/
def equalityType (h : Heap Ty) (op : BinaryOp) (left right : Ty) : Except CheckError Ty :=
  if left.isDynamic || right.isDynamic || left.isSubtype h right || right.isSubtype h left then
    .ok .boolean
  else .error (.operandsUnrelated op left right)

/-- The type of `left op right`. -/
def type (h : Heap Ty) (op : BinaryOp) (left right : Ty) : Except CheckError Ty :=
  match op with
  | add | sub | mul | div =>
    match arithmeticResult? (op == .add) left right with
    | some t => .ok t
    | none => .error (.invalidOperands op left right)
  | and | or => logicalType op left right
  | lt | le | gt | ge => orderingType h op left right
  | eq | ne => equalityType h op left right

end BinaryOp

end GradualScript
