import PrettyMarkup.CommandLine.Arguments
import PrettyMarkup.CommandLine.LogFilter
import PrettyMarkup.CommandLine.Sink
import PrettyMarkup.Json
import PrettyMarkup.Markup.Highlight
import PrettyMarkup.Settings.Source
import PrettyMarkup.Terminal.Style

/-!
# Runs of the program

A run is a function of its arguments, its input, the files it can see, its environment
and the stream that takes its output.  It answers with an exit code, what comes out of
what it writes, its diagnostics, and an error if it fails.

## Implementation notes

Settings are loaded first, then the document is read, and the output is written last;
the document itself never makes a run fail.  A value has a text in every format, so that
there is no failure between reading and writing.  The stream that takes the diagnostics
is not part of a run.
-/

namespace PrettyMarkup

namespace CommandLine

open Markup Terminal

/-- What a run starts from. -/
structure Request where
  arguments : List String
  /-- What can be read of the standard input. -/
  input : List UInt8
  folder : Folder
  /-- The environment's setting for diagnostics. -/
  logSetting : Option String
  /-- Whether a terminal shows the output. -/
  terminal : Bool
  /-- The system's words, if the standard input cannot be read to its end. -/
  inputFault : Option String := none
  /-- The standard output. -/
  output : Sink := .everything

/-- Why a run fails. -/
inductive Failure where
  | settings (error : Settings.Error)
  /-- The document cannot be read; the entry is what its path leads to. -/
  | unreadable (path : String) (entry : Entry)
  /-- The standard input cannot be read; the reason is in the system's words. -/
  | unread (reason : String)
  /-- The output cannot be written. -/
  | unwritten (reason : String)
  deriving DecidableEq, Repr

namespace Failure

/-- The system's words for a path that leads to no file. -/
def reason : Entry → String
  | .directory => "Is a directory (os error 21)"
  | .blocked => "Not a directory (os error 20)"
  | .tooLong => "File name too long (os error 36)"
  | _ => "No such file or directory (os error 2)"

def message : Failure → String
  | settings error => "Invalid configuration: " ++ error.message
  | unreadable path entry => "Cannot read " ++ path ++ ": " ++ reason entry
  | unread reason => "Cannot read standard input: " ++ reason
  | unwritten reason => "Cannot write output: " ++ reason

/-- The exit code; it tells an index that means no place from all other failures. -/
def code : Failure → Nat
  | settings .noPlace => 101
  | _ => 1

theorem code_ne_zero (failure : Failure) : failure.code ≠ 0 := by
  unfold code
  split
  · simp
  · simp

end Failure

/-- What a run answers. -/
structure Outcome where
  code : Nat
  /-- What comes out on the standard output. -/
  output : List UInt8
  records : List Log.Record
  failure : Option Failure
  deriving DecidableEq, Repr

/-! ## Settings -/

/-- The file of settings beside the document. -/
def localSettings : String := "markview.toml"

/-- A text with a tab for each backslash that a `t` follows. -/
def withTabs : List Char → List Char
  | '\\' :: 't' :: rest => '\t' :: withTabs rest
  | c :: rest => c :: withTabs rest
  | [] => []

/-- The single settings that arguments make. -/
def argumentOverrides (arguments : Arguments) : List (String × Settings.Value) :=
  let word (s : String) : Settings.Value := .scalar none (.text s)
  let yes : Settings.Value := .scalar none (.boolean true)
  (arguments.indent.map fun unit =>
      ("reflow.indent_unit", word (String.ofList (withTabs unit.toList)))).toList ++
    (if arguments.guardLiterals then [("reflow.guard_literals", yes)] else []) ++
    (if arguments.flatDeclarations then [("reflow.flat_declarations", yes)] else []) ++
    (arguments.color.map fun mode => ("render.color", word mode.name)).toList

/-- The sources of settings that arguments name. -/
def loaderOf (arguments : Arguments) : Except Settings.Error Settings.Loader :=
  let files := Settings.Loader.empty.addOptionalFile localSettings
  let files := (arguments.config.map files.addFile).getD files
  (argumentOverrides arguments).foldlM (fun loader (key, value) => loader.override key value) files

/-- The settings of a run. -/
def settingsOf (folder : Folder) (arguments : Arguments) : Except Settings.Error Settings := do
  (← loaderOf arguments).build folder

/-- What is reported of the settings' sources. -/
def settingsRecords (arguments : Arguments) : List Log.Record :=
  (arguments.config.map fun path =>
    { level := .debug, source := "markview", message := "layering configuration file"
      fields := [("path", path)] }).toList

/-! ## Documents -/

/-- The bytes of the standard input. -/
def readInput (request : Request) : Except Failure (List UInt8) :=
  match request.inputFault with
  | none => .ok request.input
  | some reason => .error (.unread reason)

/-- The bytes of the document: the input, or a file. -/
def documentOf (request : Request) (arguments : Arguments) : Except Failure (List UInt8) :=
  match arguments.path with
  | none | some "-" => readInput request
  | some path =>
    match request.folder.look path with
    | .file bytes => .ok bytes
    | entry => .error (.unreadable path entry)

def documentRecord (bytes : List UInt8) : Log.Record :=
  { level := .debug, source := "markview", message := "read input"
    fields := [("bytes", toString bytes.length)] }

/-! ## Output -/

def tokenJson (token : Token) : Json :=
  .object [("kind", .text token.kind.name), ("text", .text token.text),
    ("range", .object [("start", .number token.start), ("end", .number token.stop)])]

def spanJson (span : Span) : Json :=
  .object [("text", .text span.text), ("category", .text span.category.name)]

def lineJson (line : Line) : Json :=
  .object [("text", .text line.text), ("depth", .number line.depth)]

/-- A highlighted text in a format. -/
def render (render : RenderSettings) (terminal : Bool) (format : Format)
    (highlighted : Highlighted) : String :=
  match format with
  | .pretty => highlighted.text
  | .highlight =>
    if render.color.colors terminal then ansi render highlighted.spans else highlighted.text
  | .tokensJson => (Json.list (highlighted.tokens.map tokenJson)).pretty
  | .spansJson => (Json.list (highlighted.spans.map spanJson)).pretty
  | .linesJson => (Json.list (highlighted.document.lines.map lineJson)).pretty

/-- A text as it is written: with a line end, unless it is empty. -/
def printed (text : String) : List UInt8 :=
  if text == "" then [] else Text.encode (text ++ "\n")

/-! ## Runs -/

/-- What is written of a document, and what is reported of it. -/
def presented (request : Request) (arguments : Arguments) (settings : Settings)
    (bytes : List UInt8) : List UInt8 × List Log.Record :=
  if arguments.raw then (bytes, [])
  else
    let raw := Text.decodeLossy bytes
    let highlighted := highlight settings.reflow raw
    let format := arguments.format.getD .highlight
    (printed (render settings.render request.terminal format highlighted), highlighted.records raw)

/-- Views a document: what is to be written or the failure, and all records in order. -/
def view (request : Request) (arguments : Arguments) :
    Except Failure (List UInt8) × List Log.Record :=
  let records := settingsRecords arguments
  match settingsOf request.folder arguments with
  | .error error => (.error (.settings error), records)
  | .ok settings =>
    match documentOf request arguments with
    | .error failure => (.error failure, records)
    | .ok bytes =>
      let (output, more) := presented request arguments settings bytes
      (.ok output, records ++ documentRecord bytes :: more)

/-- Writes what is to be written: what comes out, and the failure if there is one. -/
def deliver (output : Sink) : Except Failure (List UInt8) → List UInt8 × Option Failure
  | .error failure => ([], some failure)
  | .ok bytes => ((output.write bytes).1, (output.write bytes).2.map .unwritten)

/-- The name and the number of this program. -/
def versionText : String := "markview 0.1.0\n"

/-- How the program is called. -/
def helpText : String :=
  "Pretty-print and highlight raw markup documents\n\n" ++
  "Usage: markview [OPTIONS] [path]\n\n" ++
  "Arguments:\n" ++
  "  [path]  Path to the document; reads stdin when absent or '-'\n\n" ++
  "Options:\n" ++
  "  -f, --format <format>        Output format [default: highlight] [possible values: " ++
  ", ".intercalate (Format.all.map Format.name) ++ "]\n" ++
  "  -c, --config <config>        Configuration file layered over the defaults\n" ++
  "      --indent <indent>        Indent unit repeated per nesting level ('\\t' for a tab)\n" ++
  "      --guard-literals         Do not split comments, CDATA or quoted attribute values on '><'\n" ++
  "      --flat-declarations      Keep <!DOCTYPE> and CDATA sections from opening a nesting level\n" ++
  "      --color <color>          When to colour highlight output [possible values: " ++
  ", ".intercalate (ColorMode.all.map ColorMode.name) ++ "]\n" ++
  "      --raw                    Print the input unchanged instead of reflowing it\n" ++
  "      --log-level <log-level>  Diagnostics written to stderr [default: warn] " ++
  "[possible values: " ++ ", ".intercalate logLevelNames ++ "]\n" ++
  "  -h, --help                   Print help\n" ++
  "  -V, --version                Print version\n"

/-- Runs the program.  Of the records those that the filter shows are kept.  Nobody is told if the
output refuses the program's name or its help. -/
def run (request : Request) : Outcome :=
  match Command.read request.arguments with
  | none => ⟨2, [], [], none⟩
  | some .version => ⟨0, request.output.taken (Text.encode versionText), [], none⟩
  | some .help => ⟨0, request.output.taken (Text.encode helpText), [], none⟩
  | some (.view arguments) =>
    let filter := filterOf request.logSetting (arguments.logLevel.getD "warn")
    let (result, records) := view request arguments
    let (taken, failure) := deliver request.output result
    let records := records.filter fun record => Log.Filter.shows filter record.level
    ⟨(failure.map Failure.code).getD 0, taken, records, failure⟩

end CommandLine

end PrettyMarkup
