/-
# GradualScript.Command.Arguments -- the command line

A command line names one of four commands. Options that concern every command may stand before or
after its name; after it they count more. Arguments are looked at from left to right, so the first
one that asks for help, asks for the version or cannot be accepted decides.

An option may stand once before the name of the command and once after it. Its value follows as an
argument of its own or after an equals sign, and is not empty. After `--` nothing is an option or a
command.
-/

namespace GradualScript.Command

/-- What is to be done. -/
inductive Action where
  | check (input : String) (showTree showTypes : Bool)
  | run (input : String) (checkFirst : Bool)
  | prelude (showValues : Bool)
  | info
deriving DecidableEq, Repr, Inhabited

/-- A command line that was understood. -/
structure Request where
  action : Action
  /-- The settings file. -/
  config : Option String
  /-- The text that spans point into. -/
  source : Option String
  verbose : Bool
deriving DecidableEq, Repr, Inhabited

/-- Why a command line leads to no action. -/
inductive Stop where
  | help
  | version
  | refused
deriving DecidableEq, Repr

/-! ## Reading the arguments of one level -/

/-- What may stand before the name of a command, or after it. -/
structure Level where
  flags : List String
  options : List String
  /-- Whether the version can be asked for. -/
  version : Bool
  /-- How many arguments that are not options may stand there. -/
  inputs : Nat
  commands : List String

/-- What stands there. -/
structure Seen where
  flags : List String := []
  options : List (String × String) := []
  inputs : List String := []
deriving DecidableEq, Repr, Inhabited

namespace Seen

def hasFlag (s : Seen) (name : String) : Bool := s.flags.contains name

def option? (s : Seen) (name : String) : Option String := s.options.lookup name

def withFlag (s : Seen) (name : String) : Except Stop Seen :=
  if s.hasFlag name then .error .refused else .ok { s with flags := name :: s.flags }

def withOption (s : Seen) (name value : String) : Except Stop Seen :=
  if value.isEmpty || (s.option? name).isSome then .error .refused
  else .ok { s with options := (name, value) :: s.options }

def withInput (s : Seen) (limit : Nat) (value : String) : Except Stop Seen :=
  if value.isEmpty || limit ≤ s.inputs.length then .error .refused
  else .ok { s with inputs := s.inputs ++ [value] }

end Seen

/-- An argument by its form. -/
inductive Argument where
  /-- `--name`, or `--name=value`. -/
  | long (name : String) (value : Option String)
  /-- `-` and letters. -/
  | short (letters : List Char)
  | escape
  | plain (text : String)

def Argument.ofText (text : String) : Argument :=
  match text.toList with
  | ['-', '-'] => .escape
  | '-' :: '-' :: cs =>
    match cs.span (· != '=') with
    | (name, []) => .long (String.ofList name) none
    | (name, _ :: value) => .long (String.ofList name) (some (String.ofList value))
  | ['-'] => .plain text
  | '-' :: letters => .short letters
  | _ => .plain text

def verboseFlag : String := "verbose"

/-- The letters of a short argument, one after the other. -/
def Level.readLetters (l : Level) : Seen → List Char → Except Stop Seen
  | seen, [] => .ok seen
  | seen, 'v' :: cs => do l.readLetters (← seen.withFlag verboseFlag) cs
  | _, 'h' :: _ => .error .help
  | _, 'V' :: _ => .error (if l.version then .version else .refused)
  | _, _ :: _ => .error .refused

/-- A long argument that needs no argument after it. -/
def Level.readLong (l : Level) (seen : Seen) (name : String) (value : Option String) :
    Except Stop Seen :=
  match value with
  | some v => if l.options.contains name then seen.withOption name v else .error .refused
  | none =>
    if l.flags.contains name then seen.withFlag name
    else if name = "help" then .error .help
    else if name = "version" && l.version then .error .version
    else .error .refused

/-- Reads arguments up to the name of a command; what stands there, and the command with the
arguments after it. -/
def Level.read (l : Level) (escaped : Bool) :
    Seen → List String → Except Stop (Seen × Option (String × List String))
  | seen, [] => .ok (seen, none)
  | seen, arg :: rest =>
    if escaped then do l.read true (← seen.withInput l.inputs arg) rest
    else
      match Argument.ofText arg with
      | .escape => l.read true seen rest
      | .short letters => do l.read false (← l.readLetters seen letters) rest
      | .plain text =>
        if l.commands.contains text then .ok (seen, some (text, rest))
        else do l.read false (← seen.withInput l.inputs text) rest
      | .long name value =>
        if l.options.contains name && value.isNone then
          match rest with
          | [] => .error .refused
          | v :: rest =>
            match Argument.ofText v with
            | .plain v => do l.read false (← seen.withOption name v) rest
            | _ => .error .refused
        else do l.read false (← l.readLong seen name value) rest

/-! ## The commands -/

def configOption : String := "config"

def sourceOption : String := "source"

def showTreeFlag : String := "show-ast"

def showTypesFlag : String := "show-types"

def checkFlag : String := "check"

def valuesFlag : String := "values"

/-- The names of the commands. -/
def commandNames : List String := ["check", "run", "prelude", "info"]

/-- The command that explains the other ones. -/
def helpCommand : String := "help"

/-- What may stand before the name of the command. -/
def outerLevel : Level where
  flags := [verboseFlag]
  options := [configOption, sourceOption]
  version := true
  inputs := 0
  commands := helpCommand :: commandNames

/-- What may stand after the name of a command with these flags and this number of inputs. -/
def innerLevel (flags : List String) (inputs : Nat) : Level where
  flags := verboseFlag :: flags
  options := [configOption, sourceOption]
  version := false
  inputs := inputs
  commands := []

/-- What may stand after the name of a command. -/
def levelOf (command : String) : Level :=
  match command with
  | "check" => innerLevel [showTreeFlag, showTypesFlag] 1
  | "run" => innerLevel [checkFlag] 1
  | "prelude" => innerLevel [valuesFlag] 0
  | _ => innerLevel [] 0

/-- The action of a command, by what stands after its name. -/
def actionOf? (command : String) (seen : Seen) : Option Action :=
  match command, seen.inputs with
  | "check", [input] => some (.check input (seen.hasFlag showTreeFlag) (seen.hasFlag showTypesFlag))
  | "run", [input] => some (.run input (seen.hasFlag checkFlag))
  | "prelude", [] => some (.prelude (seen.hasFlag valuesFlag))
  | "info", [] => some .info
  | _, _ => none

/-- What asking for help about `topics` comes to: commands have no commands of their own. -/
def helpAbout : List String → Stop
  | [] => .help
  | [topic] => if topic = helpCommand || commandNames.contains topic then .help else .refused
  | _ => .refused

/-- Reads a command line. -/
def Request.ofArguments (arguments : List String) : Except Stop Request := do
  let (outer, command) ← outerLevel.read false {} arguments
  match command with
  | none => .error .refused
  | some (command, rest) =>
    if command = helpCommand then .error (helpAbout rest)
    else
      let (inner, _) ← (levelOf command).read false {} rest
      match actionOf? command inner with
      | none => .error .refused
      | some action =>
        return {
          action := action
          config := (inner.option? configOption).or (outer.option? configOption)
          source := (inner.option? sourceOption).or (outer.option? sourceOption)
          verbose := inner.hasFlag verboseFlag || outer.hasFlag verboseFlag }

end GradualScript.Command
