/-
# GradualScript.Main -- the program

Reads the files that a command asks for, and writes what it comes to. Everything else is
`Command.ofArguments`.
-/

import GradualScript.Command.Run

namespace GradualScript

/-- The contents of a file, if it can be read. -/
def readFile (path : String) : IO (Option String) := do
  try
    return some (← IO.FS.readFile path)
  catch _ => return none

/-- The files that a command line may ask for. -/
def filesOf (arguments : List String) : List String :=
  match Command.Request.ofArguments arguments with
  | .error _ => []
  | .ok request =>
    let input := match request.action with
      | .check input _ _ | .run input _ => [input]
      | .prelude _ | .info => []
    Settings.defaultPath :: input ++ request.config.toList ++ request.source.toList

end GradualScript

open GradualScript in
def main (arguments : List String) : IO UInt32 := do
  let contents ← (filesOf arguments).mapM fun path => return (path, ← readFile path)
  let result := Command.ofArguments (fun path => (contents.lookup path).join) arguments
  for line in result.output do IO.println line
  for line in result.complaint do IO.eprintln line
  return result.code.toUInt32
