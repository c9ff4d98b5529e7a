/-!
# Log records

Diagnostics are values: a record has a level, the part of the program it comes from,
a message and fields.  A filter says which levels are shown.
-/

namespace PrettyMarkup

namespace Log

/-- How much a record matters, most important first. -/
inductive Level where
  | error
  | warn
  | info
  | debug
  | trace
  deriving DecidableEq, Repr

namespace Level

def all : List Level := [.error, .warn, .info, .debug, .trace]

def name : Level → String
  | error => "ERROR"
  | warn => "WARN"
  | info => "INFO"
  | debug => "DEBUG"
  | trace => "TRACE"

/-- The number of a level; a filter of that number shows it. -/
def rank : Level → Nat
  | error => 1
  | warn => 2
  | info => 3
  | debug => 4
  | trace => 5

end Level

/-- A record of what was done. -/
structure Record where
  level : Level
  /-- The part of the program that speaks. -/
  source : String
  message : String
  fields : List (String × String)
  deriving DecidableEq, Repr

/-- A record in one line. -/
def Record.render (record : Record) : String :=
  record.fields.foldl (fun line (name, value) => line ++ " " ++ name ++ "=" ++ value)
    (record.level.name ++ " " ++ record.source ++ ": " ++ record.message)

/-- The least important level that is shown; none for silence. -/
abbrev Filter := Option Level

namespace Filter

def rank (filter : Filter) : Nat := (filter.map Level.rank).getD 0

/-- Whether a filter lets a level through. -/
def shows (filter : Filter) (level : Level) : Bool := level.rank ≤ Filter.rank filter

end Filter

end Log

end PrettyMarkup
