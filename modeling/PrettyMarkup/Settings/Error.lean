import PrettyMarkup.Settings.Value
import PrettyMarkup.Text.Quoted

/-!
# Errors in settings

Each cause of a failure is a value; `message` gives its wording.
-/

namespace PrettyMarkup

namespace Settings

/-- The forms that a setting can ask for. -/
inductive Wanted where
  | boolean
  | text
  deriving DecidableEq, Repr

namespace Wanted

def describe : Wanted → String
  | boolean => "a boolean"
  | text => "a string"

end Wanted

/-- A group of settings: its name, and the names of its fields in order. -/
structure Group where
  name : String
  fields : List String
  deriving DecidableEq, Repr

/-- What was found where something else was wanted. -/
inductive Found where
  | unit
  | boolean (b : Bool)
  | integer (n : Int)
  | wideInteger (n : Int)
  | decimal (x : Number.Binary64)
  | text (s : String)
  | list
  | table
  deriving DecidableEq, Repr

namespace Found

def describe : Found → String
  | unit => "unit value"
  | boolean b => "boolean `" ++ (if b then "true" else "false") ++ "`"
  | integer n => "integer `" ++ toString n ++ "`"
  | wideInteger n => "integer `" ++ toString n ++ "` as i128"
  | decimal x => "floating point `" ++ x.toPointedText ++ "`"
  | text s => "string " ++ Text.quoted s
  | list => "sequence"
  | table => "map"

/-- What a value is, for a message. -/
def ofValue : Value → Found
  | .scalar _ .unit => unit
  | .scalar _ (.boolean b) => boolean b
  | .scalar _ (.integer n) => integer n
  | .scalar _ (.wideInteger n) => wideInteger n
  | .scalar _ (.decimal x) => decimal x
  | .scalar _ (.text s) => text s
  | .list .. => list
  | .table .. => table

end Found

/-- Why there are no settings. -/
inductive Error where
  /-- A text that should name a setting does not. -/
  | path (cause : PathError)
  /-- A file that has to exist does not. -/
  | missingFile (name : String)
  /-- A file is not a text. -/
  | undecodable
  /-- A file is not a document of its format. -/
  | malformed
  /-- A file gives a text where settings are entries of a table. -/
  | notTable (text origin : String)
  /-- An index in a path means no place of its list. -/
  | noPlace
  /-- A value has the wrong form, at a place and from a file. -/
  | wrongForm (found : Found) (wanted : Wanted) (place : List Step) (origin : Option String)
  /-- A value cannot be a group of settings. -/
  | notGroup (found : Found) (group : Group)
  /-- A list has fewer values than the group has fields. -/
  | tooShort (length : Nat) (group : Group)
  /-- A field has no value. -/
  | missingField (name : String)
  /-- A name is none of a choice's names. -/
  | unknownChoice (choice name : String)
  /-- A value does not name one of a choice's names. -/
  | notChoice (choice : String)
  /-- The indent unit would break lines. -/
  | breaksLines (unit : String)
  deriving DecidableEq, Repr

namespace Error

/-- Puts a step in front of the place of an error. -/
def within (step : Step) : Error → Error
  | wrongForm found wanted place origin => wrongForm found wanted (step :: place) origin
  | error => error

/-- The wording of an error. -/
def message : Error → String
  | path cause => cause.message
  | missingFile name => "configuration file \"" ++ name ++ "\" not found"
  | undecodable => "stream did not contain valid UTF-8"
  | malformed => "TOML parse error"
  | notTable text origin =>
    "invalid type: " ++ (Found.text text).describe ++ ", expected a map in " ++ origin ++
      " in " ++ origin
  | noPlace => "index out of bounds"
  | wrongForm found wanted place origin =>
    "invalid type: " ++ found.describe ++ ", expected " ++ wanted.describe ++
      (if place.isEmpty then "" else " for key `" ++ Step.renderPlace place ++ "`") ++
      ((origin.map fun file => " in " ++ file).getD "")
  | notGroup found group =>
    "invalid type: " ++ found.describe ++ ", expected struct " ++ group.name
  | tooShort length group =>
    "invalid length " ++ toString length ++ ", expected struct " ++ group.name ++ " with " ++
      toString group.fields.length ++ " elements"
  | missingField name => "missing field `" ++ name ++ "`"
  | unknownChoice choice name =>
    "enum " ++ choice ++ " does not have variant constructor " ++ name
  | notChoice choice =>
    "value of enum " ++ choice ++
      " should be represented by either string or table with exactly one key"
  | breaksLines unit =>
    "reflow.indent_unit must not contain line breaks, got " ++ Text.quoted unit

end Error

end Settings

end PrettyMarkup
