/-
# GradualScript.Ty.Basic -- the types of a gradually typed script

A type is a primitive, a function type, or an object type. An object type is known by the scope of
its members, which is shared and grows while the object is being checked; what its members are is
therefore a question to a heap of types, and two object types are equal when they have the same
name and the same scope.
-/

import GradualScript.Scope.Heap

namespace GradualScript

/-- The primitive types. `dynamic` is the hole of gradual typing: it fits everywhere, and
everything fits it. -/
inductive Primitive where
  | any | nil | dynamic | boolean | integer | decimal | character | string
  | equatable | comparable | iterable
deriving DecidableEq, Repr, Inhabited

namespace Primitive

/-- Every primitive, in the order in which scripts see them. -/
def all : List Primitive :=
  [any, nil, dynamic, boolean, integer, decimal, character, string, equatable, comparable, iterable]

theorem mem_all (p : Primitive) : p ∈ all := by cases p <;> decide

def name : Primitive → String
  | any => "Any"
  | nil => "Nil"
  | dynamic => "Dynamic"
  | boolean => "Boolean"
  | integer => "Integer"
  | decimal => "Decimal"
  | character => "Character"
  | string => "String"
  | equatable => "Equatable"
  | comparable => "Comparable"
  | iterable => "Iterable"

def ofName? (text : String) : Option Primitive := all.find? fun p => p.name == text

end Primitive

/-- A type. -/
inductive Ty where
  | prim (p : Primitive)
  | function (params : List Ty) (returns : Ty)
  /-- An object type: its name, and the scope of its members. -/
  | object (name : Option String) (members : ScopeId)

namespace Ty

mutual

/-- Types are equal when they are built in the same way. -/
def decEq : (a b : Ty) → Decidable (a = b)
  | prim p, prim q =>
    if h : p = q then isTrue (by rw [h]) else isFalse (by simpa using h)
  | function ps r, function qs s =>
    match decEqList ps qs, decEq r s with
    | isTrue hp, isTrue hr => isTrue (by rw [hp, hr])
    | isFalse hp, _ => isFalse fun h => hp (by injection h)
    | _, isFalse hr => isFalse fun h => hr (by injection h)
  | object n s, object m t =>
    if h : n = m ∧ s = t then isTrue (by rw [h.1, h.2])
    else isFalse fun e => h (by injection e with hn hs; exact ⟨hn, hs⟩)
  | prim _, function _ _ => isFalse (by simp)
  | prim _, object _ _ => isFalse (by simp)
  | function _ _, prim _ => isFalse (by simp)
  | function _ _, object _ _ => isFalse (by simp)
  | object _ _, prim _ => isFalse (by simp)
  | object _ _, function _ _ => isFalse (by simp)

def decEqList : (as bs : List Ty) → Decidable (as = bs)
  | [], [] => isTrue rfl
  | [], _ :: _ => isFalse (by simp)
  | _ :: _, [] => isFalse (by simp)
  | a :: as, b :: bs =>
    match decEq a b, decEqList as bs with
    | isTrue h, isTrue hs => isTrue (by rw [h, hs])
    | isFalse h, _ => isFalse fun e => h (by injection e)
    | _, isFalse hs => isFalse fun e => hs (by injection e)

end

instance : DecidableEq Ty := decEq

@[match_pattern] abbrev any : Ty := .prim .any
@[match_pattern] abbrev nil : Ty := .prim .nil
@[match_pattern] abbrev dynamic : Ty := .prim .dynamic
@[match_pattern] abbrev boolean : Ty := .prim .boolean
@[match_pattern] abbrev integer : Ty := .prim .integer
@[match_pattern] abbrev decimal : Ty := .prim .decimal
@[match_pattern] abbrev character : Ty := .prim .character
@[match_pattern] abbrev string : Ty := .prim .string
@[match_pattern] abbrev equatable : Ty := .prim .equatable
@[match_pattern] abbrev comparable : Ty := .prim .comparable
@[match_pattern] abbrev iterable : Ty := .prim .iterable

instance : Inhabited Ty := ⟨.dynamic⟩

/-- The name of a primitive type. -/
def primitiveName : Ty → Option String
  | prim p => some p.name
  | _ => none

def isPrimitive (t : Ty) : Bool := t.primitiveName.isSome

def isDynamic (t : Ty) : Bool := t == dynamic

/-- What an object without a name is called. -/
def unnamed : String := "Object"

mutual

/-- A type as messages name it. Object types go by name. -/
def display : Ty → String
  | prim p => p.name
  | function params returns => "(" ++ displayList params ++ ") -> " ++ display returns
  | object name _ => name.getD unnamed

/-- Types separated by commas. -/
def displayList : List Ty → String
  | [] => ""
  | [t] => display t
  | t :: ts => display t ++ ", " ++ displayList ts

end

end Ty

end GradualScript
