/-
# GradualScript.Settings -- what can be set in a settings file

A settings file has up to three sections with one setting each. Whatever is left out keeps its
default; whatever is not known is refused. A section is a table, or an array whose first item, if
it has one, is the setting; further items mean nothing.
-/

import GradualScript.Toml.Reader

namespace GradualScript

structure Settings where
  /-- Whether the prelude holds samples too. -/
  fixtures : Bool := false
  /-- Whether the lines that a script writes are printed. -/
  echo : Bool := true
  /-- Which messages are logged. -/
  filter : String := "warn"
deriving DecidableEq, Repr, Inhabited

/-- Why settings could not be had. -/
inductive SettingsError where
  | unreadable (path : String)
  | malformed (path : String)
deriving DecidableEq, Repr

namespace SettingsError

/-- The last segment of the code. -/
def segment : SettingsError → String
  | unreadable _ => "read"
  | malformed _ => "parse"

def code (e : SettingsError) : String := "gradus::config::" ++ e.segment

def message : SettingsError → String
  | unreadable path => s!"failed to read config file `{path}`"
  | malformed path => s!"failed to parse config file `{path}`"

def help : SettingsError → Option String
  | unreadable _ => none
  | malformed _ => some "known sections are `[prelude]`, `[output]` and `[log]`"

end SettingsError

namespace Settings

/-- The file that is read if no other one is named. -/
def defaultPath : String := "gradus.toml"

def boolean? : Toml.Value → Option Bool
  | .boolean b => some b
  | _ => none

def string? : Toml.Value → Option String
  | .string s => some s
  | _ => none

/-- The setting `name` of a section, whose default is `before`. -/
def setting? {α : Type} (name : String) (read : Toml.Value → Option α) (before : α) :
    Toml.Value → Option α
  | .table [] | .array [] => some before
  | .table [(found, v)] => if found = name then read v else none
  | .array (v :: _) => read v
  | _ => none

/-- Takes in a section. -/
def withSection (s : Settings) : String × Toml.Value → Option Settings
  | ("prelude", v) => do return { s with fixtures := ← setting? "fixtures" boolean? s.fixtures v }
  | ("output", v) => do return { s with echo := ← setting? "echo" boolean? s.echo v }
  | ("log", v) => do return { s with filter := ← setting? "filter" string? s.filter v }
  | _ => none

/-- The settings of a document. No section stands there twice, so their order does not matter. -/
def ofTable? (sections : Toml.Table) : Option Settings := sections.foldlM withSection {}

def ofText? (text : String) : Option Settings := (Toml.ofText? text).bind ofTable?

/-- The settings of the file `path` with the contents `text`, if it can be read. -/
def load (path : String) (text : Option String) : Except SettingsError Settings :=
  match text with
  | none => .error (.unreadable path)
  | some text =>
    match ofText? text with
    | some s => .ok s
    | none => .error (.malformed path)

/-- The settings of the file `named`; if no file is named, those of the default file; if there is
none, the defaults. -/
def discover (read : String → Option String) (named : Option String) :
    Except SettingsError Settings :=
  match named with
  | some path => load path (read path)
  | none =>
    match read defaultPath with
    | some text => load defaultPath (some text)
    | none => .ok {}

end Settings

end GradualScript
