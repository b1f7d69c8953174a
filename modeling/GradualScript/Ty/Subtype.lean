/-
# GradualScript.Ty.Subtype -- members of object types, and subtyping

An object type finds a member in its own scope first and then along its `prototype` members. A
chain that ends in a `Dynamic` prototype has every member, of type `Dynamic`. A type is a subtype
of another when they are equal, when one of them is `Dynamic` or the upper one is `Any`, by the
table of primitives, or when the upper object type is reached along prototypes.

A chain visits no scope twice unless it is cyclic, so as many steps as the heap has scopes are
enough for every chain that ends: there, more steps come to the same answer
(`Ty.lookupWithin_of_endsWithin`, `Ty.inheritsWithin_of_endsWithin`). A search along a cyclic chain
that does not come to what it looks for has no end of its own. Here it stops at this bound, with the
answer that there is no such member or no such prototype, where one that goes on would never answer.
-/

import GradualScript.Ty.Basic

namespace GradualScript

/-- The member that links an object to its prototype. -/
def prototypeName : String := "prototype"

namespace Ty

/-- The type of the prototype of an object with these members. -/
def prototype? (h : Heap Ty) (members : ScopeId) : Option Ty :=
  h.resolveLocal members prototypeName

/-- The type of member `name`, looked for in the first `n` objects of a prototype chain. -/
def lookupWithin (h : Heap Ty) (name : String) : Nat → ScopeId → Option Ty
  | 0, _ => none
  | n + 1, members =>
    match h.resolveLocal members name with
    | some t => some t
    | none =>
      match prototype? h members with
      | some (.object _ proto) => lookupWithin h name n proto
      | some .dynamic => some .dynamic
      | _ => none

/-- The type of member `name` of an object, its own or inherited; none if a cyclic chain has no such
member. -/
def lookup (h : Heap Ty) (members : ScopeId) (name : String) : Option Ty :=
  lookupWithin h name h.size members

/-- Whether `upper` is among the next `n` types that prototypes lead to. A `Dynamic` prototype
stands for any object without members. -/
def inheritsWithin (h : Heap Ty) (upper : Option String × ScopeId) : Nat → ScopeId → Bool
  | 0, _ => false
  | n + 1, members =>
    match prototype? h members with
    | some (.object name proto) => (name, proto) == upper || inheritsWithin h upper n proto
    | some .dynamic => (h.bindings upper.2).isEmpty
    | _ => false

/-- Whether the object type `upper` is reached by following prototypes; a cyclic chain that does not
lead there is told that it is not. -/
def inherits (h : Heap Ty) (members : ScopeId) (upper : Option String × ScopeId) : Bool :=
  inheritsWithin h upper h.size members

end Ty

/-- The subtypes among different primitives, `Any` and `Dynamic` set aside. -/
def Primitive.below : Primitive → Primitive → Bool
  | string, equatable | integer, equatable | decimal, equatable | character, equatable
  | boolean, equatable | comparable, equatable | iterable, equatable | nil, equatable => true
  | string, comparable | integer, comparable | decimal, comparable | character, comparable => true
  | _, _ => false

/-- Whether a value of type `sub` may stand where one of type `sup` is wanted. -/
def Ty.isSubtype (h : Heap Ty) (sub sup : Ty) : Bool :=
  sub == sup || sup == .any || sup == .dynamic || sub == .dynamic ||
    match sub, sup with
    | .prim p, .prim q => p.below q
    | .object _ members, .object name upper => Ty.inherits h members (name, upper)
    | _, _ => false

end GradualScript
