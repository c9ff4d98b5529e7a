import PrettyMarkup.Terminal.Color

/-!
# Arguments

What the command line asks for.  An option has a long name, perhaps a short one, and
perhaps a value; none may be repeated.  One argument that is no option is the path.

## Implementation notes

The arguments are read from left to right, and the first that cannot be understood
ends the reading; a request for the version or for help ends it too.
-/

namespace PrettyMarkup

namespace CommandLine

open Terminal

/-- What is written for a document. -/
inductive Format where
  /-- Laid out and, where output is coloured, in colours. -/
  | highlight
  /-- Laid out only. -/
  | pretty
  | tokensJson
  | spansJson
  | linesJson
  deriving DecidableEq, Repr

namespace Format

def all : List Format := [.highlight, .pretty, .tokensJson, .spansJson, .linesJson]

def name : Format → String
  | highlight => "highlight"
  | pretty => "pretty"
  | tokensJson => "tokens-json"
  | spansJson => "spans-json"
  | linesJson => "lines-json"

def ofName? (name : String) : Option Format := all.find? fun format => format.name == name

@[simp] theorem ofName?_name (format : Format) : ofName? format.name = some format := by
  cases format <;> decide

end Format

/-- The options that have a value. -/
inductive ValueOption where
  | format
  | config
  | indent
  | color
  | logLevel
  deriving DecidableEq, Repr

namespace ValueOption

def ofLong? : String → Option ValueOption
  | "format" => some format
  | "config" => some config
  | "indent" => some indent
  | "color" => some color
  | "log-level" => some logLevel
  | _ => none

def ofShort? : Char → Option ValueOption
  | 'f' => some format
  | 'c' => some config
  | _ => none

end ValueOption

/-- The options that are there or not. -/
inductive Switch where
  | guardLiterals
  | flatDeclarations
  | raw
  deriving DecidableEq, Repr

namespace Switch

def ofLong? : String → Option Switch
  | "guard-literals" => some guardLiterals
  | "flat-declarations" => some flatDeclarations
  | "raw" => some raw
  | _ => none

end Switch

/-- The names of the levels of diagnostics. -/
def logLevelNames : List String := ["off", "error", "warn", "info", "debug", "trace"]

/-- The arguments of a run. -/
structure Arguments where
  path : Option String
  format : Option Format
  config : Option String
  indent : Option String
  color : Option ColorMode
  logLevel : Option String
  guardLiterals : Bool
  flatDeclarations : Bool
  raw : Bool
  deriving DecidableEq, Repr

namespace Arguments

/-- No arguments. -/
def none : Arguments :=
  ⟨.none, .none, .none, .none, .none, .none, false, false, false⟩

/-- Sets an option that was not set before to a value it can have. -/
def setValue (arguments : Arguments) (option : ValueOption) (value : String) :
    Option Arguments :=
  match option with
  | .format =>
    if arguments.format.isSome then .none
    else (Format.ofName? value).map fun format => { arguments with format := some format }
  | .config =>
    if arguments.config.isSome then .none else some { arguments with config := some value }
  | .indent =>
    if arguments.indent.isSome then .none else some { arguments with indent := some value }
  | .color =>
    if arguments.color.isSome then .none
    else (ColorMode.all.find? fun mode => mode.name == value).map fun mode =>
      { arguments with color := some mode }
  | .logLevel =>
    if arguments.logLevel.isSome || !logLevelNames.contains value then .none
    else some { arguments with logLevel := some value }

/-- Sets a switch that was not set before. -/
def setSwitch (arguments : Arguments) (switch : Switch) : Option Arguments :=
  match switch with
  | .guardLiterals =>
    if arguments.guardLiterals then .none else some { arguments with guardLiterals := true }
  | .flatDeclarations =>
    if arguments.flatDeclarations then .none
    else some { arguments with flatDeclarations := true }
  | .raw => if arguments.raw then .none else some { arguments with raw := true }

/-- Sets the path, if there is none. -/
def setPath (arguments : Arguments) (path : String) : Option Arguments :=
  if arguments.path.isSome then .none else some { arguments with path := some path }

/-- Takes all that is left as paths. -/
def setPaths (arguments : Arguments) (paths : List String) : Option Arguments :=
  paths.foldlM setPath arguments

end Arguments

/-- What a run is asked to do. -/
inductive Command where
  | view (arguments : Arguments)
  | version
  | help
  deriving DecidableEq, Repr

/-- One argument by its form. -/
inductive Word where
  /-- Ends the options. -/
  | separator
  /-- A long option, with the value after its equals sign. -/
  | long (name : String) (attached : Option String)
  /-- A short option, with what follows it in the argument. -/
  | short (name : Char) (attached : List Char)
  /-- A value or a path. -/
  | plain (text : String)
  deriving DecidableEq, Repr

namespace Word

/-- The form of an argument. -/
def ofArgument (argument : String) : Word :=
  match argument.toList with
  | ['-', '-'] => separator
  | '-' :: '-' :: rest =>
    long (String.ofList (rest.takeWhile (· != '=')))
      (match rest.dropWhile (· != '=') with
        | [] => none
        | _ :: value => some (String.ofList value))
  | '-' :: name :: rest => short name rest
  | _ => plain argument

/-- The value that a short option has in its own argument: an equals sign before it is dropped. -/
def attachedValue? : List Char → Option String
  | [] => none
  | '=' :: rest => some (String.ofList rest)
  | rest => some (String.ofList rest)

end Word

namespace Command

/-- Reads the arguments that are left. -/
def readFrom (arguments : Arguments) : List String → Option Command
  | [] => some (view arguments)
  | argument :: rest =>
    match Word.ofArgument argument with
    | .separator => (arguments.setPaths rest).map view
    | .plain text => do readFrom (← arguments.setPath text) rest
    | .long name attached =>
      match ValueOption.ofLong? name, attached with
      | some option, some value => do readFrom (← arguments.setValue option value) rest
      | some option, none => readValue arguments option rest
      | none, some _ => none
      | none, none =>
        if name == "version" then some version
        else if name == "help" then some help
        else do readFrom (← arguments.setSwitch (← Switch.ofLong? name)) rest
    | .short name attached =>
      match ValueOption.ofShort? name, Word.attachedValue? attached with
      | some option, some value => do readFrom (← arguments.setValue option value) rest
      | some option, none => readValue arguments option rest
      | none, _ =>
        if name == 'V' then some version else if name == 'h' then some help else none
where
  /-- Reads the value of an option from the next argument. -/
  readValue (arguments : Arguments) (option : ValueOption) : List String → Option Command
    | [] => none
    | argument :: rest =>
      match Word.ofArgument argument with
      | .plain text => do readFrom (← arguments.setValue option text) rest
      | _ => none

/-- Reads all arguments; none if they cannot be understood. -/
def read (arguments : List String) : Option Command := readFrom .none arguments

end Command

end CommandLine

end PrettyMarkup
