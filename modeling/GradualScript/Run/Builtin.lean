/-
# GradualScript.Run.Builtin -- the functions that a prelude provides

A builtin checks its arguments itself. The sample methods are given their receiver as the first
argument, like every method, and do not count it when they complain.
-/

import GradualScript.Run.Layout
import GradualScript.Run.World

namespace GradualScript.Builtin

/-- Number of arguments of a call, the receiver of a method left out. -/
def argumentCount : Builtin → Nat
  | function | inheritedMethod | method => 0
  | log | debug | print | functionAny | functionString | methodAny | methodString => 1
  | range => 2

/-- Number of arguments that are given to a builtin before those of the call. -/
def receiverCount : Builtin → Nat
  | inheritedMethod | method | methodAny | methodString => 1
  | _ => 0

/-- The integers from `start` on that are less than `stop`, in order. -/
def integers (start stop : Int) : List Value :=
  (List.range (stop - start).toNat).map fun k : Nat => .integer (start + k)

/-- Calls a builtin. -/
def apply : Builtin → List Value → Run Value
  | log, [v] => do
    Run.write (← Run.read fun h => v.display h)
    return v
  | debug, [v] => do
    Run.write (← Run.read fun h => (v.layout h).compact)
    return .nil
  | print, [v] => do
    Run.write (← Run.read fun h => v.display h)
    return .nil
  | range, [.integer start, .integer stop] => return .iterable (integers start stop)
  | range, [first, second] => Run.fail (.rangeArguments first.kind second.kind)
  | function, [] | inheritedMethod, [_] | method, [_] => return .nil
  | functionAny, [v] | functionString, [v] | methodAny, [_, v] | methodString, [_, v] => return v
  | f, arguments =>
    Run.fail (.argumentCount f.name f.argumentCount (arguments.length - f.receiverCount))

end GradualScript.Builtin
