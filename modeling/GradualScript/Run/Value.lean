/-
# GradualScript.Run.Value -- values of a running script

Plain data, functions and objects. A function is a builtin or a closure: a definition together
with the scope that it was made in. An object is the scope of its members; it finds a member there
first and then along its `prototype` members, as far as those are objects.

A value's printed form (`display`) names the objects inside another object and does not open them,
so it ends on cyclic objects too.
-/

import GradualScript.Scope.Heap
import GradualScript.Syntax.Script
import GradualScript.Ty.Subtype
import GradualScript.Decimal.Text

namespace GradualScript

/-- The functions that a prelude provides. -/
inductive Builtin where
  | log | debug | print | range
  /-- Sample functions: without arguments, or giving back their argument. -/
  | function | functionAny | functionString
  /-- Sample methods of the same kinds. -/
  | inheritedMethod | method | methodAny | methodString
deriving DecidableEq, Repr, Inhabited

def Builtin.name : Builtin → String
  | log => "log"
  | debug => "debug"
  | print => "print"
  | range => "range"
  | function => "function"
  | functionAny => "functionAny"
  | functionString => "functionString"
  | inheritedMethod => "inherited_method"
  | method => "method"
  | methodAny => "methodAny"
  | methodString => "methodString"

/-- A definition with the scope that its free names refer to. A method takes its receiver as an
implicit first argument, bound to `this`. -/
structure Closure where
  definition : Definition
  captured : ScopeId
  isMethod : Bool

/-- Number of arguments that a closure is called with, a method's receiver counted. -/
def Closure.arity (f : Closure) : Nat := f.definition.params.length + f.isMethod.toNat

/-- What can be called. -/
inductive Callable where
  | builtin (f : Builtin)
  | closure (f : Closure)

namespace Callable

def name : Callable → String
  | builtin f => f.name
  | closure f => f.definition.name

/-- The number of arguments that a call must supply. Builtins keep theirs to themselves. -/
def arity? : Callable → Option Nat
  | builtin _ => none
  | closure f => some f.arity

/-- Closures are equal when the same scope bound them under the same name: a scope binds a name
once, so it is the same definition, made at the same moment (`RunSession.equals_iff`). -/
def equals : Callable → Callable → Bool
  | builtin f, builtin g => f == g
  | closure f, closure g => f.definition.name == g.definition.name && f.captured == g.captured
  | _, _ => false

end Callable

inductive Value where
  | nil
  | boolean (value : Bool)
  | integer (value : Int)
  | decimal (value : Decimal)
  | character (value : Char)
  | string (value : String)
  /-- A finite sequence that a `FOR` loop can walk. -/
  | iterable (elements : List Value)
  | function (f : Callable)
  /-- An object: its name, and the scope of its members. -/
  | object (name : Option String) (members : ScopeId)

instance : Inhabited Value := ⟨.nil⟩

/-- The kinds of values that messages distinguish. -/
inductive Kind where
  | nil | boolean | integer | decimal | character | string | iterable | function | object
deriving DecidableEq, Repr, Inhabited

def Kind.name : Kind → String
  | nil => "Nil"
  | boolean => "Boolean"
  | integer => "Integer"
  | decimal => "Decimal"
  | character => "Character"
  | string => "String"
  | iterable => "Iterable"
  | function => "Function"
  | object => "Object"

namespace Value

def kind : Value → Kind
  | nil => .nil
  | boolean _ => .boolean
  | integer _ => .integer
  | decimal _ => .decimal
  | character _ => .character
  | string _ => .string
  | iterable _ => .iterable
  | function _ => .function
  | object _ _ => .object

def isFunction (v : Value) : Bool := v.kind == .function

/-- The value of a constant. -/
def ofLiteral : Literal → Value
  | .nil => nil
  | .boolean b => boolean b
  | .integer n => integer n
  | .decimal d => decimal d
  | .character c => character c
  | .string s => string s

/-! ## Members -/

/-- The prototype of an object with these members, if it is an object. -/
def prototype? (h : Heap Value) (members : ScopeId) : Option ScopeId :=
  match h.resolveLocal members prototypeName with
  | some (.object _ proto) => some proto
  | _ => none

/-- The member `name`, looked for in the first `n` objects of a prototype chain. -/
def lookupWithin (h : Heap Value) (name : String) : Nat → ScopeId → Option Value
  | 0, _ => none
  | n + 1, members =>
    match h.resolveLocal members name with
    | some v => some v
    | none =>
      match prototype? h members with
      | some proto => lookupWithin h name n proto
      | none => none

/-- The member `name` of an object, its own or inherited. A chain visits no scope twice unless it
is cyclic, so it is searched for as many steps as the heap has scopes, and more steps find nothing
else (`lookupWithin_eq_lookup`). On a cyclic chain without the member a search has no end of its
own: here it stops at this bound and finds nothing, where one that goes on would never answer. -/
def lookup (h : Heap Value) (members : ScopeId) (name : String) : Option Value :=
  lookupWithin h name h.size members

/-! ## Equality -/

mutual

/-- Equality of values. Decimals are equal when digits and scale are, so `1.0` and `1.00` differ.
Objects are equal when they are the same object. -/
def equals : Value → Value → Bool
  | nil, nil => true
  | boolean a, boolean b => a == b
  | integer a, integer b => a == b
  | decimal a, decimal b => a == b
  | character a, character b => a == b
  | string a, string b => a == b
  | iterable as, iterable bs => equalsList as bs
  | function f, function g => f.equals g
  | object n s, object m t => n == m && s == t
  | _, _ => false

def equalsList : List Value → List Value → Bool
  | [], [] => true
  | a :: as, b :: bs => equals a b && equalsList as bs
  | _, _ => false

end

/-! ## Printed form -/

def functionText (name : String) : String := "<function " ++ name ++ ">"

/-- Words separated by commas. -/
def commaSeparated (words : List String) : String := ", ".intercalate words

mutual

/-- A value inside an object: objects go by name. -/
def brief : Value → String
  | nil => "NIL"
  | boolean true => "TRUE"
  | boolean false => "FALSE"
  | integer n => toString n
  | decimal d => d.toText
  | character c => c.toString
  | string s => s
  | iterable vs => "[" ++ commaSeparated (briefList vs) ++ "]"
  | function f => functionText f.name
  | object name _ => name.getD Ty.unnamed

def briefList : List Value → List String
  | [] => []
  | v :: vs => brief v :: briefList vs

end

/-- An object with its members. Functions are left out. -/
def displayObject (h : Heap Value) (name : Option String) (members : ScopeId) : String :=
  let fields := (h.bindings members).entries.filter fun e => !e.2.isFunction
  let title := name.getD Ty.unnamed
  if fields.isEmpty then title ++ " \x7b\x7d"
  else
    title ++ " \x7b " ++ commaSeparated (fields.map fun e => e.1 ++ ": " ++ brief e.2) ++ " \x7d"

mutual

/-- The printed form of a value, as `print` writes it and as a string takes it in. -/
def display (h : Heap Value) : Value → String
  | iterable vs => "[" ++ commaSeparated (displayList h vs) ++ "]"
  | object name members => displayObject h name members
  | v => brief v

def displayList (h : Heap Value) : List Value → List String
  | [] => []
  | v :: vs => display h v :: displayList h vs

end

end Value

end GradualScript
