import PrettyMarkup.Entries
import PrettyMarkup.Number.Binary64
import PrettyMarkup.Toml.Moment

/-!
# Values and tables

A table remembers how it was written, because that decides what may still be added
to it: a table named by a header is opened once, and a table made by dotted keys
grows by dotted keys only.

## Implementation notes

A table holds its entries in the order written, each name once.  Every change
goes through `Table.alter`, which walks a path and makes the tables that are missing.
-/

namespace PrettyMarkup

namespace Toml

/-- How a table was written. -/
inductive Form where
  /-- Named by a header, or the whole document. -/
  | header
  /-- Not named itself, but on the way to a table that a header names. -/
  | implied
  /-- Made by a dotted key. -/
  | dotted
  /-- Written as a value; nothing is added to it. -/
  | inline
  deriving DecidableEq, Repr

/-- A value of a document. -/
inductive Value where
  | text (text : String)
  | integer (n : Int)
  | decimal (x : Number.Binary64)
  | boolean (b : Bool)
  | moment (moment : Moment)
  /-- A list of values; one made by headers in double brackets is `extensible`. -/
  | list (extensible : Bool) (items : List Value)
  | table (form : Form) (entries : List (String × Value))
  deriving Repr

namespace Value

mutual

/-- Whether two values are the same. -/
def same : Value → Value → Bool
  | text s, text s' => s == s'
  | integer n, integer n' => n == n'
  | decimal x, decimal x' => x == x'
  | boolean b, boolean b' => b == b'
  | moment m, moment m' => m == m'
  | list extensible items, list extensible' items' =>
    extensible == extensible' && sameItems items items'
  | table form entries, table form' entries' => form == form' && sameEntries entries entries'
  | _, _ => false

def sameItems : List Value → List Value → Bool
  | [], [] => true
  | item :: items, item' :: items' => item.same item' && sameItems items items'
  | _, _ => false

def sameEntries : List (String × Value) → List (String × Value) → Bool
  | [], [] => true
  | (name, value) :: entries, (name', value') :: entries' =>
    name == name' && value.same value' && sameEntries entries entries'
  | _, _ => false

end

mutual

theorem same_iff : ∀ a b : Value, a.same b = true ↔ a = b
  | text _, b | integer _, b | decimal _, b | boolean _, b | moment _, b => by
      cases b <;> simp [same]
  | list _ items, b => by cases b <;> simp [same, sameItems_iff items]
  | table _ entries, b => by cases b <;> simp [same, sameEntries_iff entries]

theorem sameItems_iff : ∀ a b : List Value, sameItems a b = true ↔ a = b
  | [], b => by cases b <;> simp [sameItems]
  | item :: items, b => by cases b <;> simp [sameItems, same_iff item, sameItems_iff items]

theorem sameEntries_iff : ∀ a b : List (String × Value), sameEntries a b = true ↔ a = b
  | [], b => by cases b <;> simp [sameEntries]
  | (name, value) :: entries, b => by
      cases b <;> simp [sameEntries, same_iff value, sameEntries_iff entries, Prod.ext_iff]

end

instance : DecidableEq Value := fun a b => decidable_of_iff _ (same_iff a b)

end Value

/-- A table: how it was written, and its entries. -/
structure Table where
  form : Form
  entries : List (String × Value)
  deriving Repr

namespace Table

def empty (form : Form) : Table := ⟨form, []⟩

def toValue (table : Table) : Value := .table table.form table.entries

def get? (table : Table) (key : String) : Option Value := Entries.get? key table.entries

/-- Replaces the entry of a key, or adds it at the end. -/
def put (table : Table) (key : String) (value : Value) : Table :=
  { table with entries := Entries.put key value table.entries }

/-- Moves the entry of a key to the end, with a new value. -/
def putLast (table : Table) (key : String) (value : Value) : Table :=
  { table with entries := Entries.remove key table.entries ++ [(key, value)] }

/-- The last item of a list and the ones before it, if it is a table. -/
def splitLast? (items : List Value) : Option (List Value × Table) :=
  match items.getLast? with
  | some (.table form entries) => some (items.dropLast, ⟨form, entries⟩)
  | _ => none

/-- Changes the table at the end of a path.  A list made by headers stands for its last table.
With `dotted` the path is that of a dotted key: it must not enter a table that a header named. -/
def alter (dotted : Bool) (change : Table → Option Table) : List String → Table → Option Table
  | [], table => change table
  | key :: path, table =>
    match table.get? key with
    | none => do
      let inner ← alter dotted change path (empty (if dotted then .dotted else .implied))
      return table.put key inner.toValue
    | some (.table .inline _) => none
    | some (.table form entries) =>
      if dotted && form == .header then none else do
        let inner ← alter dotted change path ⟨form, entries⟩
        return table.put key inner.toValue
    | some (.list true items) => do
      let (before, last) ← splitLast? items
      let inner ← alter dotted change path last
      return table.put key (.list true (before ++ [inner.toValue]))
    | some _ => none

/-- Adds an entry at a dotted path.  The table there was made by dotted keys exactly if the path
is not empty. -/
def assign (path : List String) (key : String) (value : Value) : Table → Option Table :=
  alter true (fun table =>
    if (table.form == .dotted) == path.isEmpty then none
    else if (table.get? key).isSome then none
    else some (table.put key value)) path

/-- Opens the table that a header names.  Its place is where the header stands. -/
def openTable (path : List String) (key : String) : Table → Option Table :=
  alter false (fun table =>
    match table.get? key with
    | none => some (table.put key (.table .header []))
    | some (.table .implied entries) => some (table.putLast key (.table .header entries))
    | some _ => none) path

/-- Adds a table to the list that a header in double brackets names. -/
def openItem (path : List String) (key : String) : Table → Option Table :=
  alter false (fun table =>
    match table.get? key with
    | none => some (table.put key (.list true [.table .header []]))
    | some (.list true items) => some (table.put key (.list true (items ++ [.table .header []])))
    | some _ => none) path

end Table

end Toml

end PrettyMarkup
