/-
# GradualScript.Prelude -- what scripts find defined

The prelude is one scope, seen by the checker with types and by the evaluator with values. Both
bind the builtins; only the checker binds the names of the primitive types. On demand the prelude
also holds samples (`fixtures`): a value of each kind and an object with a prototype.
-/

import GradualScript.Run.World

namespace GradualScript.Prelude

/-! ## Types -/

/-- The names of the primitive types. -/
def primitiveTypes : List (String × Ty) := Primitive.all.map fun p => (p.name, .prim p)

/-- The builtins, as the checker sees them. -/
def builtinTypes : List (String × Ty) :=
  [("log", .function [.any] .dynamic),
    ("debug", .function [.any] .nil),
    ("print", .function [.any] .nil),
    ("range", .function [.integer, .integer] .iterable)]

/-- The prototype of the sample object. -/
def samplePrototypeTypes : List (String × Ty) :=
  [("inherited_property", .string), ("inherited_method", .function [] .nil)]

/-- The sample object, whose prototype has the members in scope `proto`. -/
def sampleObjectTypes (proto : ScopeId) : List (String × Ty) :=
  [(prototypeName, .object (some "Prototype") proto),
    ("property", .string),
    ("method", .function [] .nil),
    ("methodAny", .function [.any] .any),
    ("methodString", .function [.string] .string)]

/-- The samples; the sample object has the members in scope `object`. -/
def sampleTypes (object : ScopeId) : List (String × Ty) :=
  [("any", .any),
    ("dynamic", .dynamic),
    ("equatable", .equatable),
    ("comparable", .comparable),
    ("iterable", .iterable),
    ("variable", .string),
    ("function", .function [] .nil),
    ("functionAny", .function [.any] .any),
    ("functionString", .function [.string] .string),
    ("object", .object (some "Object") object)]

/-- The prelude's scope of types, and the heap that it lies in. -/
def types (fixtures : Bool) : ScopeId × Heap Ty :=
  if fixtures then
    let (proto, h) := Heap.empty.root (.ofList samplePrototypeTypes)
    let (object, h) := h.root (.ofList (sampleObjectTypes proto))
    h.root (.ofList (primitiveTypes ++ builtinTypes ++ sampleTypes object))
  else Heap.empty.root (.ofList (primitiveTypes ++ builtinTypes))

/-! ## Values -/

/-- Functions under their own names. -/
def functions (fs : List Builtin) : List (String × Value) :=
  fs.map fun f => (f.name, .function (.builtin f))

/-- The builtins. -/
def builtinValues : List (String × Value) := functions [.log, .debug, .print, .range]

/-- The prototype of the sample object. -/
def samplePrototypeValues : List (String × Value) :=
  ("inherited_property", .string "inherited_property") :: functions [.inheritedMethod]

/-- The sample object, whose prototype has the members in scope `proto`. -/
def sampleObjectValues (proto : ScopeId) : List (String × Value) :=
  (prototypeName, .object (some "Prototype") proto) :: ("property", .string "property")
    :: functions [.method, .methodAny, .methodString]

/-- The samples; the sample object has the members in scope `object`. -/
def sampleValues (object : ScopeId) : List (String × Value) :=
  [("any", .nil),
    ("dynamic", .nil),
    ("equatable", .nil),
    ("comparable", .integer 0),
    ("iterable", .iterable [.integer 1, .integer 2, .integer 3]),
    ("variable", .string "variable")]
    ++ functions [.function, .functionAny, .functionString]
    ++ [("object", .object (some "Object") object)]

/-- The prelude's scope of values, and the heap that it lies in. -/
def values (fixtures : Bool) : ScopeId × Heap Value :=
  if fixtures then
    let (proto, h) := Heap.empty.root (.ofList samplePrototypeValues)
    let (object, h) := h.root (.ofList (sampleObjectValues proto))
    h.root (.ofList (builtinValues ++ sampleValues object))
  else Heap.empty.root (.ofList builtinValues)

/-! ## The prelude as a list -/

/-- A name of the prelude with its type, and its value unless it is the name of a type. -/
structure Entry where
  name : String
  ty : Ty
  value : Option Value

/-- What the prelude binds, in the order of its types. -/
def entries (fixtures : Bool) : List Entry :=
  let (typeScope, typeHeap) := types fixtures
  let (valueScope, valueHeap) := values fixtures
  (typeHeap.bindings typeScope).entries.map fun e =>
    ⟨e.1, e.2, valueHeap.resolveLocal valueScope e.1⟩

end GradualScript.Prelude
