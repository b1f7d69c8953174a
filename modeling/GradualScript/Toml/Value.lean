/-
# GradualScript.Toml.Value -- settings documents

A settings document is written in TOML 1.0. Numbers with a fraction and dates are kept as they are
written: no setting is one of them.
-/

namespace GradualScript.Toml

inductive Value where
  | string (value : String)
  | boolean (value : Bool)
  | integer (value : Int)
  | float (text : String)
  | dateTime (text : String)
  | array (items : List Value)
  | table (entries : List (String × Value))

instance : Inhabited Value := ⟨.boolean false⟩

/-- A whole document, or the inside of a table. -/
abbrev Table := List (String × Value)

end GradualScript.Toml
