/-
# GradualScript.Run.Operator -- operations on values

What the operators do with values. The left operand is looked at on its own first: it may be of a
kind that the operator refuses (`leftFault?`), or decide the result alone (`decided?`). A sum with
a string is a concatenation of printed forms, which is why sums read the heap. The other arithmetic
wants two integers or two decimals; an integer quotient is cut off towards zero.
-/

import GradualScript.Decimal.Division
import GradualScript.Run.Error

namespace GradualScript

namespace Value

/-- The sum of two numbers of one kind, or the concatenation of printed forms if one operand is a
string. -/
def add (h : Heap Value) : Value → Value → Except EvalError Value
  | string a, right => .ok (.string (a ++ right.display h))
  | left, string b => .ok (.string (left.display h ++ b))
  | integer a, integer b => .ok (.integer (a + b))
  | decimal a, decimal b => .ok (.decimal (a.add b))
  | left, right => .error (.invalidSum left.kind right.kind)

/-- Whether a value is a number. -/
def isNumeric : Value → Bool
  | integer _ | decimal _ => true
  | _ => false

/-- `left op right` for an arithmetic operator other than the sum. -/
def arithmetic (op : BinaryOp) (left right : Value) : Except EvalError Value :=
  match left, right with
  | integer a, integer b =>
    match op with
    | .sub => .ok (.integer (a - b))
    | .mul => .ok (.integer (a * b))
    | _ => if b = 0 then .error .divisionByZero else .ok (.integer (a.tdiv b))
  | decimal a, decimal b =>
    match op with
    | .sub => .ok (.decimal (a.sub b))
    | .mul => .ok (.decimal (a.mul b))
    | _ => if b.digits = 0 then .error .divisionByZero else .ok (.decimal (a.divide b))
  | left, right => .error (.operandsDiffer op left.kind right.kind)

/-- Whether a value has a place in the order of its kind. -/
def isOrderable : Value → Bool
  | boolean _ | integer _ | decimal _ | character _ | string _ => true
  | _ => false

/-- The order of strings: by code points, the first difference deciding. -/
def compareChars : List Char → List Char → Ordering
  | [], [] => .eq
  | [], _ :: _ => .lt
  | _ :: _, [] => .gt
  | a :: as, b :: bs => (Ord.compare a.toNat b.toNat).then (compareChars as bs)

/-- The order of two values of one orderable kind. `FALSE` comes before `TRUE`. -/
def compare : Value → Value → Option Ordering
  | boolean a, boolean b => some (Ord.compare a.toNat b.toNat)
  | integer a, integer b => some (Ord.compare a b)
  | decimal a, decimal b => some (a.compare b)
  | character a, character b => some (Ord.compare a.toNat b.toNat)
  | string a, string b => some (compareChars a.toList b.toList)
  | _, _ => none

/-- Whether `left op right` holds for an ordering operator, by the order of the operands. -/
def holds (op : BinaryOp) (order : Ordering) : Bool :=
  match op with
  | .lt => order == .lt
  | .le => order != .gt
  | .gt => order == .gt
  | _ => order != .lt

end Value

namespace BinaryOp

/-- Why an operator refuses its left operand, whatever the right one is. -/
def leftFault? (op : BinaryOp) (left : Value) : Option EvalError :=
  match op with
  | and | or =>
    match left with
    | .boolean _ => none
    | _ => some (.operandNotBoolean .left op left.kind)
  | sub | mul | div => if left.isNumeric then none else some (.leftNotNumeric op left.kind)
  | lt | le | gt | ge => if left.isOrderable then none else some (.leftNotComparable op left.kind)
  | add | eq | ne => none

/-- The result of an operator that its left operand decides alone. The right operand is not looked
at then. -/
def decided? : BinaryOp → Value → Option Value
  | and, .boolean false => some (.boolean false)
  | or, .boolean true => some (.boolean true)
  | _, _ => none

/-- `left op right`, for a left operand that is neither refused nor decides the result. -/
def combine (h : Heap Value) (op : BinaryOp) (left right : Value) : Except EvalError Value :=
  match op with
  | and | or =>
    match right with
    | .boolean b => .ok (.boolean b)
    | _ => .error (.operandNotBoolean .right op right.kind)
  | add => left.add h right
  | sub | mul | div => left.arithmetic op right
  | lt | le | gt | ge =>
    match left.compare right with
    | some order => .ok (.boolean (Value.holds op order))
    | none => .error (.rightMismatch op left.kind right.kind)
  | eq => .ok (.boolean (left.equals right))
  | ne => .ok (.boolean (!left.equals right))

end BinaryOp

end GradualScript
