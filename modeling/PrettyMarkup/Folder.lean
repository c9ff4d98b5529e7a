import PrettyMarkup.Entries
import PrettyMarkup.Text.ByteSize

/-!
# Files by name

The files that a run can see.  A name is a path: its parts stand between slashes,
and empty parts and single dots mean nothing.
-/

namespace PrettyMarkup

/-- What a name leads to. -/
inductive Entry where
  | file (bytes : List UInt8)
  | directory
  /-- A file stands where the name needs a directory. -/
  | blocked
  /-- The name, or a part of it that is looked up, is longer than names can be. -/
  | tooLong
  | missing
  deriving DecidableEq, Repr

/-- The files that a run can see, and the directory it runs in. -/
structure Folder where
  look : String → Entry
  /-- The parts of the path of the directory that relative names start from. -/
  home : List String

namespace Folder

/-- Whether a part of a name means nothing. -/
def isEmptyPart (part : String) : Bool := part == "" || part == "."

/-- The parts of a name. -/
def parts (name : String) : List String :=
  ((name.toList.splitOn '/').map String.ofList).filter fun part => !isEmptyPart part

/-- Drops the parts at the end that mean nothing. -/
def dropEmptyEnd (parts : List String) : List String :=
  (parts.reverse.dropWhile isEmptyPart).reverse

/-- Whether a name starts at the root. -/
def isAbsolute (name : String) : Bool := name.toList.head? == some '/'

/-- Whether a name says that it leads to a directory. -/
def asksDirectory (name : String) : Bool :=
  let last := (name.toList.splitOn '/').getLast?
  last == some [] || last == some ['.']

/-- The number of bytes that one part of a name has at most. -/
def maxPartSize : Nat := 255

/-- The number of bytes that a whole name has at most. -/
def maxNameSize : Nat := 4095

/-- Follows the parts of a name through a directory with some files and nothing else in it.  Of
what is outside, only the directories around it are known; `inside` says where the walk is. -/
def walk (files : List (String × List UInt8)) (asksDirectory : Bool) :
    (inside : Bool) → List String → Entry
  | _, [] => .directory
  | inside, part :: rest =>
    if part == ".." then walk files asksDirectory false rest
    else if maxPartSize < Text.byteSize part.toList then .tooLong
    else
      match if inside then Entries.get? part files else none with
      | none => .missing
      | some bytes => if rest.isEmpty && !asksDirectory then .file bytes else .blocked

/-- A directory with some files and nothing else in it. -/
def ofFiles (files : List (String × List UInt8)) : Folder where
  look name :=
    if name == "" then .missing
    else if maxNameSize < Text.byteSize name.toList then .tooLong
    else walk files (asksDirectory name) (!isAbsolute name) (parts name)
  home := []

/-- The way from one directory to a path, both from the root. -/
def relative : List String → List String → List String
  | [], path => path
  | base, [] => base.map fun _ => ".."
  | b :: base, p :: path =>
    if b == p then relative base path
    else ((b :: base).map fun _ => "..") ++ p :: path

/-- A name as it is shown: from the directory of the run. -/
def shownName (folder : Folder) (name : String) : String :=
  let way := if isAbsolute name then relative folder.home (parts name) else parts name
  "/".intercalate way

end Folder

end PrettyMarkup
