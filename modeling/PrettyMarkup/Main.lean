import PrettyMarkup.CommandLine.Run

/-!
# The program

Reads what a run needs, and writes what it answers.
-/

namespace PrettyMarkup

namespace Program

/-- What a name leads to in the file system. -/
def lookUp (name : String) : IO Entry := do
  try
    let bytes ← IO.FS.readBinFile name
    return .file bytes.toList
  catch error =>
    match error with
    | .noFileOrDirectory .. => return .missing
    | .invalidArgument _ 36 _ => return .tooLong
    | .inappropriateType .. => if name.endsWith "/" then return .blocked else return .directory
    | _ => return .missing

/-- The names that the arguments may lead to. -/
def namesOf (arguments : List String) : List String :=
  let settings := Settings.FileLayer.candidates CommandLine.localSettings
  match CommandLine.Command.read arguments with
  | some (.view arguments) =>
    settings ++ arguments.path.toList ++
      (arguments.config.map Settings.FileLayer.candidates).getD []
  | _ => []

/-- The part of the file system that the arguments may lead to. -/
def folderOf (arguments : List String) : IO Folder := do
  let entries ← (namesOf arguments).mapM fun name => do return (name, ← lookUp name)
  let home ← IO.currentDir
  return {
    look := fun name => (Entries.get? name entries).getD .missing
    home := Folder.parts home.toString }

/-- Whether the run reads the standard input. -/
def readsInput (arguments : List String) : Bool :=
  match CommandLine.Command.read arguments with
  | some (.view arguments) => arguments.path == none || arguments.path == some "-"
  | _ => false

/-- The standard input, and the system's words if it cannot be read. -/
def readInput : IO (ByteArray × Option String) := do
  try
    return (← (← IO.getStdin).readBinToEnd, none)
  catch error =>
    return (ByteArray.empty, some error.toString)

/-- Writes bytes, and says how the standard output has taken them. -/
def writeOutput (output : IO.FS.Stream) (bytes : List UInt8) : IO CommandLine.Sink := do
  try
    output.write ⟨bytes.toArray⟩
    output.flush
    return .everything
  catch error =>
    return .ofRoom 0 error.toString

end Program

end PrettyMarkup

open PrettyMarkup

/-- Runs the program on the arguments, the input and the files that it is given.  How the output is
taken is known when it is written, and then the run ends as it does with such an output. -/
def main (arguments : List String) : IO UInt32 := do
  let folder ← Program.folderOf arguments
  let output ← IO.getStdout
  let errors ← IO.getStderr
  let (input, inputFault) ←
    if Program.readsInput arguments then Program.readInput else pure (ByteArray.empty, none)
  let request : CommandLine.Request := {
    arguments
    input := input.toList
    folder
    logSetting := ← IO.getEnv "MARKVIEW_LOG"
    terminal := ← output.isTty
    inputFault }
  let sink ← Program.writeOutput output (CommandLine.run request).output
  let outcome := CommandLine.run { request with output := sink }
  for record in outcome.records do
    errors.putStrLn record.render
  match outcome.failure with
  | some failure => errors.putStrLn ("Error: " ++ failure.message)
  | none => if outcome.code == 2 then errors.putStrLn "error: invalid arguments" else pure ()
  return outcome.code.toUInt32
