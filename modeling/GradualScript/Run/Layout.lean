/-
# GradualScript.Run.Layout -- the debugging view of a value

Plain data is tagged with its kind, so a string and a number that print alike can be told apart. A
function shows its name and, if it was defined by a script, the number of its arguments. An object
shows the names of its members only, since a member may be the object itself.
-/

import GradualScript.Run.Value
import GradualScript.Scope.Layout

namespace GradualScript

open Text (Layout)

namespace Value

/-- Plain data, tagged with its kind. -/
def dataLayout (tag : String) (item : Layout) : Layout := .tuple "Primitive" [.tuple tag [item]]

mutual

/-- A value with its kind, and the names of its members if it is an object. -/
def layout (h : Heap Value) : Value → Layout
  | nil => .tuple "Primitive" [.text "Nil"]
  | boolean b => dataLayout "Boolean" (.boolean b)
  | integer n => dataLayout "Integer" (.text (toString n))
  | decimal d => dataLayout "Decimal" (.text d.storedText)
  | character c => dataLayout "Character" (.text (Text.quotedChar c))
  | string s => dataLayout "String" (.string s)
  | iterable vs => dataLayout "Iterable" (.list (layoutList h vs))
  | function f =>
    .record "Function"
      [("name", .string f.name), ("arity", .option (f.arity?.map Layout.number))]
  | object name members =>
    .record "Object" [("name", .optionalName name), ("members", h.nameLayout members)]

def layoutList (h : Heap Value) : List Value → List Layout
  | [] => []
  | v :: vs => layout h v :: layoutList h vs

end

end Value

end GradualScript
