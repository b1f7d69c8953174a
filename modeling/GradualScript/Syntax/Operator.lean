/-
# GradualScript.Syntax.Operator -- binary operators, their spellings and their operands
-/

namespace GradualScript

/-- A binary operator. -/
inductive BinaryOp where
  | add | sub | mul | div
  | and | or
  | lt | le | gt | ge
  | eq | ne
deriving DecidableEq, Repr, Inhabited

namespace BinaryOp

/-- The spelling of an operator. -/
def symbol : BinaryOp → String
  | add => "+"
  | sub => "-"
  | mul => "*"
  | div => "/"
  | and => "AND"
  | or => "OR"
  | lt => "<"
  | le => "<="
  | gt => ">"
  | ge => ">="
  | eq => "=="
  | ne => "!="

/-- The operator with a spelling. Two logical operators have a second one. -/
def ofText? : String → Option BinaryOp
  | "+" => some add
  | "-" => some sub
  | "*" => some mul
  | "/" => some div
  | "AND" | "&&" => some and
  | "OR" | "||" => some or
  | "<" => some lt
  | "<=" => some le
  | ">" => some gt
  | ">=" => some ge
  | "==" => some eq
  | "!=" => some ne
  | _ => none

/-- An operator's spelling reads back as the operator. -/
theorem ofText?_symbol (op : BinaryOp) : ofText? op.symbol = some op := by
  cases op <;> rfl

end BinaryOp

/-- The operands of a binary operator. -/
inductive Side where
  | left
  | right
deriving DecidableEq, Repr

def Side.text : Side → String
  | left => "left"
  | right => "right"

/-- What is wrong with a text that is no operator. -/
def unknownOperator (text : String) : String := "unknown operator: " ++ text

end GradualScript
