/-
# GradualScript.Json.Value -- JSON documents

Scripts are exchanged as JSON. A document keeps the order of the members of an object, repeated
names included: what repetition means is for the reader of a format to say. Numbers are kept as
they are written, so that nothing is rounded before it is known what a number stands for.

What stands in a member that a format does not know is passed over without being understood. A
document may therefore hold values that nothing can be made of: they are `unreadable`, and matter
only to a format that asks for them.
-/

namespace GradualScript

/-- A number as it is written: a whole part, digits after a point, a power of ten. -/
structure Json.Number where
  negative : Bool
  whole : Nat
  /-- The digits after the point; none if there is no point. -/
  places : List Nat
  exponent : Option Int
deriving DecidableEq, Repr, Inhabited

inductive Json where
  | null
  | boolean (value : Bool)
  | number (value : Json.Number)
  | string (value : String)
  | array (items : List Json)
  | object (members : List (String × Json))
  /-- A value of correct grammar that can only be passed over: a string or a member's name with
  half of a surrogate pair, or arrays and objects that are nested too deeply. -/
  | unreadable

namespace Json

instance : Inhabited Json := ⟨.null⟩

/-- The number `n` without a point and without an exponent. -/
def ofNat (n : Nat) : Json := .number ⟨false, n, [], none⟩

/-- A number that is written without a point and without an exponent. Minus zero is none of
them. -/
def Number.plain? (n : Number) : Option Int :=
  if n.places.isEmpty && n.exponent.isNone && !(n.negative && n.whole == 0) then
    some (if n.negative then -(n.whole : Int) else n.whole)
  else none

/-- A value that may be missing. -/
def ofOption {α : Type} (encode : α → Json) : Option α → Json
  | none => .null
  | some a => encode a

/-- The value of member `name` of an object. -/
def member? (name : String) : Json → Option Json
  | object members => members.lookup name
  | _ => none

/-! ## Nesting -/

mutual

/-- How many arrays and objects are nested in each other. -/
def depth : Json → Nat
  | array items => depthItems items + 1
  | object members => depthMembers members + 1
  | _ => 0

def depthItems : List Json → Nat
  | [] => 0
  | item :: items => max (depth item) (depthItems items)

def depthMembers : List (String × Json) → Nat
  | [] => 0
  | (_, value) :: members => max (depth value) (depthMembers members)

end

mutual

/-- The document in which arrays and objects inside `nesting` others are unreadable. -/
def clip (nesting : Nat) : Json → Json
  | array items =>
    match nesting with
    | 0 => .unreadable
    | nesting + 1 => .array (clipItems nesting items)
  | object members =>
    match nesting with
    | 0 => .unreadable
    | nesting + 1 => .object (clipMembers nesting members)
  | value => value

def clipItems (nesting : Nat) : List Json → List Json
  | [] => []
  | item :: items => clip nesting item :: clipItems nesting items

def clipMembers (nesting : Nat) : List (String × Json) → List (String × Json)
  | [] => []
  | (name, value) :: members => (name, clip nesting value) :: clipMembers nesting members

end

/-! ## Repeated names -/

mutual

/-- The document in which the last of several members with one name counts. -/
def lastMembers : Json → Json
  | array items => .array (lastItems items)
  | object members => .object (lastOfEach members)
  | value => value

def lastItems : List Json → List Json
  | [] => []
  | item :: items => lastMembers item :: lastItems items

def lastOfEach : List (String × Json) → List (String × Json)
  | [] => []
  | (name, value) :: members =>
    if members.any fun m => m.1 == name then lastOfEach members
    else (name, lastMembers value) :: lastOfEach members

end

end Json

end GradualScript
