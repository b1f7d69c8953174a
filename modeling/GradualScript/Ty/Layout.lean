/-
# GradualScript.Ty.Layout -- the debugging view of a type

An object type shows the names of its members only, since a member may be of the type itself.
-/

import GradualScript.Scope.Layout
import GradualScript.Ty.Basic

namespace GradualScript

open Text (Layout)

mutual

/-- A type with the names of its members, if it is an object type. -/
def Ty.layout (h : Heap Ty) : Ty → Layout
  | .prim p => .text p.name
  | .function params returns =>
    .record "Function" [("params", .list (layoutList h params)), ("returns", layout h returns)]
  | .object name members =>
    .tuple "Object"
      [.record "ObjectType"
        [("name", .optionalName name), ("members", h.nameLayout members)]]

def Ty.layoutList (h : Heap Ty) : List Ty → List Layout
  | [] => []
  | t :: ts => layout h t :: layoutList h ts

end

end GradualScript
