import PrettyMarkup.Toml.Value

/-!
# Documents

A document is a sequence of lines: headers, each of which names the table that the
entries after it belong to, and entries.  `parse?` reads a whole document.

A table whose first key is `momentKey` stands for the moment that its text gives, and
its other entries do not count.  The document itself is such a table, too.
-/

namespace PrettyMarkup

namespace Toml

/-- What was read of a document: its table, and the path of the table that entries go to. -/
structure Draft where
  root : Table
  current : List String

namespace Draft

def start : Draft := ⟨.empty .header, []⟩

/-- Reads a header of one pair of brackets or two. -/
def header (draft : Draft) : Reader Draft := do
  if ← Reader.accept ['[', '['] then
    let (path, name) ← key
    Reader.expect [']', ']']
    finishLine
    return ⟨← Reader.require (draft.root.openItem path name), path ++ [name]⟩
  else
    Reader.expect ['[']
    let (path, name) ← key
    Reader.expect [']']
    finishLine
    return ⟨← Reader.require (draft.root.openTable path name), path ++ [name]⟩

/-- Reads an entry of the current table. -/
def entry (draft : Draft) : Reader Draft := do
  let (path, name) ← key
  Reader.expect ['=']
  skipSpaces
  let value ← value maxNesting
  finishLine
  let root ← Reader.require
    (Table.alter false (Table.assign path name value) draft.current draft.root)
  return { draft with root }

/-- Reads the lines of a document, `fuel` at most. -/
def lines : Nat → Draft → Reader Draft
  | 0, draft => return draft
  | fuel + 1, draft => do
    skipSpaces
    match ← Reader.peek with
    | none => return draft
    | some '[' => lines fuel (← draft.header)
    | some '#' | some '\n' | some '\r' =>
      finishLine
      lines fuel draft
    | some _ => lines fuel (← draft.entry)

end Draft

/-! ## Tables that stand for moments -/

/-- The key that makes a table stand for a moment. -/
def momentKey : String := "$__toml_private_datetime"

namespace Value

/-- The moment that a text gives. -/
def moment? : Value → Option Moment
  | text s => Moment.ofText? s.toList
  | _ => none

mutual

/-- A value with moments in place of the tables that stand for them.  There is none if such a
table gives no moment. -/
def resolve? : Value → Option Value
  | list extensible items => do return list extensible (← resolveItems? items)
  | table form [] => some (table form [])
  | table form ((name, value) :: rest) =>
    if name == momentKey then value.moment?.map moment
    else do return table form ((name, ← value.resolve?) :: (← resolveEntries? rest))
  | value => some value

def resolveItems? : List Value → Option (List Value)
  | [] => some []
  | item :: rest => do return (← item.resolve?) :: (← resolveItems? rest)

def resolveEntries? : List (String × Value) → Option (List (String × Value))
  | [] => some []
  | (name, value) :: rest => do return (name, ← value.resolve?) :: (← resolveEntries? rest)

end

end Value

/-! ## Whole documents -/

/-- Reads a document: a table, or the moment that it stands for.  One byte order mark at its start
does not count. -/
def parse? (text : List Char) : Option Value :=
  let text := match text with
    | '\uFEFF' :: rest => rest
    | _ => text
  (Reader.runAll (Draft.lines (text.length + 1) .start) text).bind fun draft =>
    draft.root.toValue.resolve?

end Toml

end PrettyMarkup
