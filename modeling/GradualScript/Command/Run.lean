/-
# GradualScript.Command.Run -- what the commands do

A command reads files and writes text, so it is a function from the arguments and the contents of
files to what is written and the exit code. The settings are read first, then the text that spans
point into, then the script: the first of them that fails decides.
-/

import GradualScript.Command.Arguments
import GradualScript.Json.Reader
import GradualScript.Json.Writer
import GradualScript.Session
import GradualScript.Settings
import GradualScript.Syntax.Decoding
import GradualScript.Syntax.Encoding
import GradualScript.Typed.Layout

namespace GradualScript.Command

def programName : String := "gds"

def versionText : String := "0.3.0"

/-- What a command comes to. -/
structure Result where
  code : UInt8
  /-- The lines for the standard output. -/
  output : List String
  /-- The lines for the standard error output. -/
  complaint : List String
deriving DecidableEq, Repr

/-- The exit code of a command that failed. -/
def failureCode : UInt8 := 1

/-- The exit code of a command line that was not understood. -/
def usageCode : UInt8 := 2

def usage : String :=
  "usage: gds [--config FILE] [--source FILE] [--verbose] (check | run | prelude | info) ..."

namespace Result

def success (output : List String) : Result := ⟨0, output, []⟩

def failure (output : List String) (complaint : String) : Result :=
  ⟨failureCode, output, [complaint]⟩

/-- The result with lines written before it. -/
def after (r : Result) (output : List String) : Result := { r with output := output ++ r.output }

end Result

def Stop.result : Stop → Result
  | .help => .success [usage]
  | .version => .success [programName ++ " " ++ versionText]
  | .refused => ⟨usageCode, [], [usage]⟩

/-- A diagnostic on one line. -/
def complaintOf (d : Diagnostic) : String := d.code ++ ": " ++ d.message

/-- The script in a file. -/
def readScript (read : String → Option String) (path : String) : Except String Script :=
  match read path with
  | none => .error ("failed to read " ++ path)
  | some text =>
    match (Json.ofText? text).bind (Script.ofJson? .text) with
    | none => .error ("failed to parse " ++ path)
    | some p => .ok p

/-- The lines that show the tree of a script. -/
def treeLines (p : Script) : List String := ["=== AST ===", (p.json NodeId.json).pretty 0, ""]

/-- The lines that show a typed script. -/
def typedLines (h : Heap Ty) (statements : List Typed.Stmt) : List String :=
  ["=== HIR (with types) ===", (Typed.scriptLayout h statements).expanded 0, ""]

/-- Checks a script. The tree is shown before the check, the typed script after it. -/
def check (settings : Settings) (input : String) (showTree showTypes : Bool) (p : Script) :
    Result :=
  let shown := if showTree then treeLines p else []
  let (checked, h) := p.check settings.fixtures
  match checked with
  | .error d => .failure shown (complaintOf d)
  | .ok statements =>
    .success (shown ++ (if showTypes then typedLines h statements else [])
      ++ ["All checks passed: " ++ input])

/-- Runs a script, after a check if that is wanted. What it writes is shown even if it fails. -/
def run (settings : Settings) (checkFirst : Bool) (p : Script) : Result :=
  let refusal := if checkFirst then
      match (p.check settings.fixtures).1 with
      | .error d => some d
      | .ok _ => none
    else none
  match refusal with
  | some d => .failure [] (complaintOf d)
  | none =>
    let outcome := p.run settings.fixtures
    let written := if settings.echo then outcome.output.toList else []
    match outcome.result with
    | .ok v => .success (written ++ [v.display outcome.after.heap])
    | .error (.fault fault) => .failure written (complaintOf fault.runDiagnostic)
    | .error .tooDeep => .failure written "calls are nested too deeply"

/-- The prelude, a line for each name. -/
def prelude (settings : Settings) (showValues : Bool) : Result :=
  let (_, h) := Prelude.values settings.fixtures
  .success ((Prelude.entries settings.fixtures).map fun e =>
    let typed := e.name ++ ": " ++ e.ty.display
    match e.value with
    | some v => if showValues then typed ++ " = " ++ v.display h else typed
    | none => typed)

def showBoolean (b : Bool) : String := if b then "true" else "false"

/-- The version and the settings. -/
def info (settings : Settings) (config : Option String) : Result :=
  .success
    ["Gradus",
      "Version: " ++ versionText,
      "",
      "Configuration:",
      "  file: " ++ config.getD (Settings.defaultPath ++ " (if present)"),
      "  prelude fixtures: " ++ showBoolean settings.fixtures,
      "  echo output: " ++ showBoolean settings.echo,
      "  log filter: " ++ settings.filter]

/-- Does what a command line asks for. -/
def perform (read : String → Option String) (request : Request) : Result :=
  match Settings.discover read request.config with
  | .error e => .failure [] (e.code ++ ": " ++ e.message)
  | .ok settings =>
    match request.source.filter fun path => (read path).isNone with
    | some path => .failure [] ("failed to read " ++ path)
    | none =>
      match request.action with
      | .check input showTree showTypes =>
        match readScript read input with
        | .error complaint => .failure [] complaint
        | .ok p => check settings input showTree showTypes p
      | .run input checkFirst =>
        match readScript read input with
        | .error complaint => .failure [] complaint
        | .ok p => run settings checkFirst p
      | .prelude showValues => prelude settings showValues
      | .info => info settings request.config

/-- The result of a command line, for files with the contents that `read` tells. -/
def ofArguments (read : String → Option String) (arguments : List String) : Result :=
  match Request.ofArguments arguments with
  | .ok request => perform read request
  | .error stop => stop.result

end GradualScript.Command
