/-
# GradualScript.Toml.Number -- numbers and dates

Underscores may stand between the digits of a number, but only between digits. Integers are 64-bit
numbers, and a positive float may not be too large for one. The fields of dates and times have to
be in range; a leap second is allowed.
-/

import GradualScript.Binary64
import GradualScript.Toml.Text
import GradualScript.Toml.Value

namespace GradualScript.Toml

open GradualScript.Text (Reader after? hexDigit? hexNumber? ofDigits)

/-! ## Digits -/

def isDigit (c : Char) : Bool := (Numeral.digit? c).isSome

/-- Digits, each of which may have an underscore before it. -/
def moreDigits (isDigit : Char → Bool) : List Char → List Char × List Char
  | '_' :: c :: cs =>
    if isDigit c then
      let (ds, rest) := moreDigits isDigit cs
      (c :: ds, rest)
    else ([], '_' :: c :: cs)
  | c :: cs =>
    if isDigit c then
      let (ds, rest) := moreDigits isDigit cs
      (c :: ds, rest)
    else ([], c :: cs)
  | [] => ([], [])

/-- At least one digit, with underscores between digits. -/
def someDigits (isDigit : Char → Bool) : Reader (List Char)
  | c :: cs =>
    if isDigit c then
      let (ds, rest) := moreDigits isDigit cs
      some (c :: ds, rest)
    else none
  | [] => none

/-- The digits of a whole number: zero, or digits that do not begin with zero. -/
def wholeDigits : Reader (List Char)
  | '0' :: cs => some (['0'], cs)
  | cs => someDigits isDigit cs

/-- A sign, or nothing. -/
def sign : List Char → List Char × List Char
  | '+' :: cs => (['+'], cs)
  | '-' :: cs => (['-'], cs)
  | cs => ([], cs)

/-! ## Integers and floats -/

def decimalNumber (ds : List Char) : Nat := ofDigits (ds.filterMap Numeral.digit?)

/-- The number that digits in base `2 ^ bits` stand for. -/
def binaryNumber (bits : Nat) (ds : List Char) : Nat :=
  (ds.filterMap hexDigit?).foldl (fun n d => Nat.pow 2 bits * n + d) 0

/-- An integer, unless it does not fit into 64 bits. -/
def integer (i : Int) (rest : List Char) : Option (Value × List Char) :=
  if Int64.minValue.toInt ≤ i ∧ i ≤ Int64.maxValue.toInt then some (.integer i, rest) else none

/-- The integer after a prefix that gives its base. -/
def prefixedInteger (bits : Nat) (isDigit : Char → Bool) (cs : List Char) :
    Option (Value × List Char) := do
  let (ds, rest) ← someDigits isDigit cs
  integer (binaryNumber bits ds) rest

/-- A point and digits, or nothing. -/
def fraction : List Char → List Char × List Char
  | '.' :: cs =>
    match someDigits isDigit cs with
    | some (ds, rest) => ('.' :: ds, rest)
    | none => ([], '.' :: cs)
  | cs => ([], cs)

/-- An `e`, perhaps a sign, and digits, or nothing. -/
def exponent : List Char → List Char × List Char
  | [] => ([], [])
  | c :: cs =>
    if c = 'e' ∨ c = 'E' then
      let (s, rest) := sign cs
      match someDigits isDigit rest with
      | some (ds, rest) => ('e' :: s ++ ds, rest)
      | none => ([], c :: cs)
    else ([], c :: cs)

/-- Whether `m * 10 ^ power` can be rounded to 64 bits. Numbers with more than 309 digits before the
point are too large, those with less than 309 are not. -/
def isDouble (m : Nat) (power : Int) : Bool :=
  let places := ((Nat.toDigits 10 m).length : Int) + power
  m == 0 || places < 309 ||
    (places == 309 && (Binary64.nearest (m * Decimal.pow10 power) (Decimal.pow10 (-power))).isSome)

/-- The power of ten that an exponent stands for. -/
def powerOfTen : List Char → Int
  | 'e' :: '-' :: ds => -(decimalNumber ds : Int)
  | ds => decimalNumber ds

/-- A number without a prefix. -/
def decimal (cs : List Char) : Option (Value × List Char) := do
  let (s, cs) := sign cs
  match after? "inf".toList cs, after? "nan".toList cs with
  | some rest, _ => return (.float (String.ofList (s ++ "inf".toList)), rest)
  | _, some rest => return (.float (String.ofList (s ++ "nan".toList)), rest)
  | none, none =>
    let (ds, rest) ← wholeDigits cs
    let (f, rest) := fraction rest
    let (e, rest) := exponent rest
    if f.isEmpty && e.isEmpty then
      integer (if s = ['-'] then -(decimalNumber ds : Int) else decimalNumber ds) rest
    else
      let power := powerOfTen e - (f.filterMap Numeral.digit?).length
      if s = ['-'] || isDouble (decimalNumber (ds ++ f)) power then
        return (.float (String.ofList (s ++ ds ++ f ++ e)), rest)
      else none

def number : Reader Value
  | '0' :: 'x' :: cs => prefixedInteger 4 (fun c => (hexDigit? c).isSome) cs
  | '0' :: 'o' :: cs => prefixedInteger 3 (fun c => '0' ≤ c && c ≤ '7') cs
  | '0' :: 'b' :: cs => prefixedInteger 1 (fun c => c == '0' || c == '1') cs
  | cs => decimal cs

/-! ## Dates and times -/

/-- A number of exactly `count` digits. -/
def fixedDigits : (count : Nat) → Reader (List Nat)
  | 0, cs => some ([], cs)
  | count + 1, cs =>
    match cs with
    | c :: cs => do
      let d ← Numeral.digit? c
      let (ds, rest) ← fixedDigits count cs
      return (d :: ds, rest)
    | [] => none

/-- A number of exactly `count` digits from `low` to `high`. -/
def field (count low high : Nat) (cs : List Char) : Option (Nat × List Char) := do
  let (ds, rest) ← fixedDigits count cs
  let n := ofDigits ds
  if low ≤ n ∧ n ≤ high then return (n, rest) else none

def isLeapYear (year : Nat) : Bool := year % 4 == 0 && (year % 100 != 0 || year % 400 == 0)

def daysInMonth (year month : Nat) : Nat :=
  if month = 2 then if isLeapYear year then 29 else 28
  else if month = 4 ∨ month = 6 ∨ month = 9 ∨ month = 11 then 30
  else 31

/-- The text after a date. -/
def date? (cs : List Char) : Option (List Char) := do
  let (year, cs) ← field 4 0 9999 cs
  let cs ← after? ['-'] cs
  let (month, cs) ← field 2 1 12 cs
  let cs ← after? ['-'] cs
  let (_, cs) ← field 2 1 (daysInMonth year month) cs
  return cs

/-- The text after a time of day. -/
def time? (cs : List Char) : Option (List Char) := do
  let (_, cs) ← field 2 0 23 cs
  let cs ← after? [':'] cs
  let (_, cs) ← field 2 0 59 cs
  let cs ← after? [':'] cs
  let (_, cs) ← field 2 0 60 cs
  match cs with
  | '.' :: cs =>
    match cs.span isDigit with
    | ([], _) => none
    | (_, rest) => return rest
  | cs => return cs

/-- The text after the distance from universal time. -/
def offset? : List Char → Option (List Char)
  | 'Z' :: cs | 'z' :: cs => some cs
  | c :: cs =>
    if c = '+' ∨ c = '-' then do
      let (_, cs) ← field 2 0 23 cs
      let cs ← after? [':'] cs
      let (_, cs) ← field 2 0 59 cs
      return cs
    else none
  | [] => none

/-- The text after a time of day that follows a date, and after its distance from universal time if
that is given. -/
def timeAfterDate? : List Char → Option (List Char)
  | c :: cs =>
    if c = 'T' ∨ c = 't' ∨ c = ' ' then (time? cs).map fun rest => (offset? rest).getD rest
    else none
  | [] => none

/-- A date, a time, or both. -/
def dateTime (cs : List Char) : Option (Value × List Char) := do
  let rest ← match date? cs with
    | some rest => some ((timeAfterDate? rest).getD rest)
    | none => time? cs
  return (.dateTime (String.ofList (cs.take (cs.length - rest.length))), rest)

end GradualScript.Toml
