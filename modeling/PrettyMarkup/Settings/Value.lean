import PrettyMarkup.Entries
import PrettyMarkup.Number.Shortest
import PrettyMarkup.Settings.Path
import PrettyMarkup.Text.LowerCase

/-!
# Layered values

A value is set by layers one over another.  Tables are merged entry by entry; every
other value replaces the one below.  A value remembers the file it came from.

## Implementation notes

Names are compared in lower case, so they are stored so.  A table that came about by
merging belongs to no file.
-/

namespace PrettyMarkup

namespace Settings

/-- A value without parts. -/
inductive Scalar where
  | unit
  | boolean (b : Bool)
  | integer (n : Int)
  /-- An integer of more than 64 bits. -/
  | wideInteger (n : Int)
  | decimal (x : Number.Binary64)
  | text (s : String)
  deriving DecidableEq, Repr

/-- A value, with the file that it came from. -/
inductive Value where
  | scalar (origin : Option String) (scalar : Scalar)
  | list (origin : Option String) (items : List Value)
  | table (origin : Option String) (entries : List (String × Value))
  deriving Repr

namespace Value

/-- Nothing, set by no file. -/
def unit : Value := scalar none .unit

/-- The table without entries, of no file. -/
def emptyTable : Value := table none []

/-- A value seen as a table: one that is none is replaced by the empty table. -/
def asTable : Value → Option String × List (String × Value)
  | table origin entries => (origin, entries)
  | _ => (none, [])

/-- A value seen as a list: one that is none is replaced by the empty list. -/
def asList : Value → Option String × List Value
  | list origin items => (origin, items)
  | _ => (none, [])

/-- The entry of a name, which is in lower case. -/
def entry? (value : Value) (name : String) : Option Value := Entries.get? name value.asTable.2

/-- Replaces the entry of a name, which is in lower case. -/
def setEntry (value : Value) (name : String) (new : Value) : Value :=
  table value.asTable.1 (Entries.put name new value.asTable.2)

/-- The number of items that a list has at most. -/
def maxItems : Nat := 4294967296

/-- The place that an index means in a list; there is none before the start or beyond `maxItems`. -/
def placeOf? (i : Int) (length : Nat) : Option Nat :=
  if 0 ≤ i then if i.toNat < maxItems then some i.toNat else none
  else if i.natAbs ≤ length then some (length - i.natAbs)
  else none

/-- Changes the item of an index.  A list that is too short is filled up with nothing. -/
def updateItem? (value : Value) (i : Int) (change : Value → Option Value) : Option Value := do
  let (origin, items) := value.asList
  let place ← placeOf? i items.length
  let filled := items ++ List.replicate (place + 1 - items.length) unit
  return list origin (filled.take place ++ (← change (filled.getD place unit)) ::
    filled.drop (place + 1))

/-! ## Merging -/

mutual

/-- Sets the entry of a name: a table is merged into the value there, all else replaces it. -/
def mergeEntry (target : Value) (name : String) : Value → Value
  | table _ incoming =>
    let name := Text.lowerCase name
    target.setEntry name (mergeEntries ((target.entry? name).getD emptyTable) incoming)
  | scalar origin incoming => target.setEntry (Text.lowerCase name) (scalar origin incoming)
  | list origin items => target.setEntry (Text.lowerCase name) (list origin items)

/-- Sets some entries, one after another. -/
def mergeEntries (target : Value) : List (String × Value) → Value
  | [] => target
  | (name, incoming) :: rest => mergeEntries (mergeEntry target name incoming) rest

end

/-- Changes the value at some steps.  What is missing on the way is made, and what is of another
form is replaced.  Like the functions below it fails if an index means no place. -/
def update? (value : Value) (steps : List Step) (change : Value → Option Value) : Option Value :=
  match steps with
  | [] => change value
  | .key name :: rest => do
    let name := Text.lowerCase name
    return value.setEntry name (← ((value.entry? name).getD unit).update? rest change)
  | .index i :: rest => value.updateItem? i fun item => item.update? rest change

/-- Sets the value at a last step. -/
def setStep? (value : Value) (step : Step) (incoming : Value) : Option Value :=
  match step with
  | .key name => some (value.mergeEntry name incoming)
  | .index i => value.updateItem? i fun _ => some incoming

/-- Sets the value at a path. -/
def setPath? (value : Value) (path : Path) (incoming : Value) : Option Value :=
  match path.steps.getLast? with
  | none => some (value.mergeEntry path.root incoming)
  | some last =>
    value.update? (.key path.root :: path.steps.dropLast) fun parent =>
      parent.setStep? last incoming

/-- Sets an entry whose name may be the text of a path. -/
def setNamed? (value : Value) (name : String) (incoming : Value) : Option Value :=
  match Path.parse name with
  | .ok path => value.setPath? path incoming
  | .error _ => some (value.mergeEntry name incoming)

end Value

end Settings

end PrettyMarkup
