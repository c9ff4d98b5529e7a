import PrettyMarkup.Folder
import PrettyMarkup.Settings.Decode
import PrettyMarkup.Text.Utf8
import PrettyMarkup.Toml.Document

/-!
# Where settings come from

Settings have three kinds of sources: the standard ones, then files in the order they
were added, then single settings that override all files.  `Loader.build` merges them.
-/

namespace PrettyMarkup

namespace Settings

open Markup Terminal

/-! ## Layers -/

mutual

/-- A value of a document as a layered value of a file. -/
def Value.ofToml (origin : Option String) : Toml.Value → Value
  | .text s => .scalar origin (.text s)
  | .integer n => .scalar origin (.integer n)
  | .decimal x => .scalar origin (.decimal x)
  | .boolean b => .scalar origin (.boolean b)
  | .moment moment => .scalar origin (.text moment.render)
  | .list _ items => .list origin (Value.ofTomlItems origin items)
  | .table _ entries => .table origin (Value.ofTomlEntries origin entries)

def Value.ofTomlItems (origin : Option String) : List Toml.Value → List Value
  | [] => []
  | item :: rest => Value.ofToml origin item :: Value.ofTomlItems origin rest

def Value.ofTomlEntries (origin : Option String) :
    List (String × Toml.Value) → List (String × Value)
  | [] => []
  | (name, item) :: rest =>
    (name, Value.ofToml origin item) :: Value.ofTomlEntries origin rest

end

/-- Settings as a value that reads as them. -/
def toValue (settings : Settings) : Value :=
  let word (s : String) : Value := .scalar none (.text s)
  let flag (b : Bool) : Value := .scalar none (.boolean b)
  let reflow := settings.reflow
  let render := settings.render
  .table none [
    ("reflow", .table none [
      ("indent_unit", word reflow.indentUnit),
      ("guard_literals", flag reflow.guardLiterals),
      ("flat_declarations", flag reflow.flatDeclarations)]),
    ("render", .table none [
      ("color", word render.color.name),
      ("italic_comments", flag render.italicComments),
      ("bold_tag_names", flag render.boldTagNames),
      ("palette", .table none
        (Category.all.map fun category =>
          (category.name, word (render.palette.color category).name)))])]

/-- The value that a change leaves, which fails only by an index. -/
def changed (result : Option Value) : Except Error Value :=
  match result with
  | some value => .ok value
  | none => .error .noPlace

/-- Sets the entries of a layer over a value.  Their names may be the texts of paths. -/
def mergeLayer (value : Value) (layer : List (String × Value)) : Except Error Value :=
  layer.foldlM (fun value (name, incoming) => changed (value.setNamed? name incoming)) value

/-! ## Files -/

/-- A file of settings. -/
structure FileLayer where
  name : String
  /-- Whether it is an error if the file cannot be read. -/
  required : Bool
  deriving DecidableEq, Repr

namespace FileLayer

/-- The names that a file is looked for under: its own, and with the extension of the format
behind its last part. -/
def candidates (name : String) : List String :=
  let kept := Folder.dropEmptyEnd ((name.toList.splitOn '/').map String.ofList)
  match kept.getLast? with
  | none | some ".." => [name]
  | some _ => [name, "/".intercalate kept ++ ".toml"]

/-- Finds a file under one of its names. -/
def find? (folder : Folder) (name : String) : Option (String × List UInt8) :=
  (candidates name).findSome? fun candidate =>
    match folder.look candidate with
    | .file bytes => some (folder.shownName candidate, bytes)
    | _ => none

/-- The text of a file, and the name it is shown under. -/
def read (folder : Folder) (name : String) : Except Error (String × String) :=
  match find? folder name with
  | none => .error (.missingFile name)
  | some (shown, bytes) =>
    match Text.decode? bytes with
    | none => .error .undecodable
    | some text => .ok (shown, text)

/-- The entries that a file sets.  A file that need not be there sets nothing if it cannot be
read. -/
def entries (layer : FileLayer) (folder : Folder) : Except Error (List (String × Value)) :=
  match read folder layer.name with
  | .error error => if layer.required then .error error else .ok []
  | .ok (shown, text) =>
    match Toml.parse? text.toList with
    | some (.table _ entries) => .ok (Value.ofTomlEntries (some shown) entries)
    | some (.moment moment) => .error (.notTable moment.render shown)
    | _ => .error .malformed

end FileLayer

/-! ## Loading -/

/-- The sources of settings over the standard ones. -/
structure Loader where
  files : List FileLayer
  /-- Settings over all files, each path once. -/
  overrides : List (Path × Value)

namespace Loader

def empty : Loader := ⟨[], []⟩

/-- Adds a file that has to exist. -/
def addFile (loader : Loader) (name : String) : Loader :=
  { loader with files := loader.files ++ [⟨name, true⟩] }

/-- Adds a file that need not exist. -/
def addOptionalFile (loader : Loader) (name : String) : Loader :=
  { loader with files := loader.files ++ [⟨name, false⟩] }

/-- Sets one path over all files; the last value of a path counts. -/
def override (loader : Loader) (key : String) (value : Value) : Except Error Loader :=
  match Path.parse key with
  | .error cause => .error (.path cause)
  | .ok path =>
    let others := loader.overrides.filter fun entry => entry.1 != path
    .ok { loader with overrides := others ++ [(path, value)] }

/-- All sources merged, over the standard settings. -/
def merged (folder : Folder) (loader : Loader) : Except Error Value := do
  let base ← loader.files.foldlM
    (fun value file => do mergeLayer value (← file.entries folder)) (toValue .standard)
  loader.overrides.foldlM (fun value (path, incoming) => changed (value.setPath? path incoming)) base

/-- The settings that come of the sources. -/
def build (folder : Folder) (loader : Loader) : Except Error Settings := do
  checkIndent (← decode (← loader.merged folder))

end Loader

end Settings

end PrettyMarkup
