import PrettyMarkup.Settings.Source

/-!
# Single settings

The leaves of the settings are what a source sets one by one: each has a path of names, and an
assignment gives it a value of its own type.
-/

namespace PrettyMarkup

open Markup Terminal

namespace Palette

/-- A palette with another colour for one category. -/
def setColor (palette : Palette) (color : Color) : Category → Palette
  | .punctuation => { palette with punctuation := color }
  | .tagName => { palette with tagName := color }
  | .attributeName => { palette with attributeName := color }
  | .attributeValue => { palette with attributeValue := color }
  | .text => { palette with text := color }
  | .comment => { palette with comment := color }
  | .processingInstruction => { palette with processingInstruction := color }

end Palette

namespace Settings

/-- What can be set by itself. -/
inductive Leaf where
  | indentUnit
  | guardLiterals
  | flatDeclarations
  | color
  | italicComments
  | boldTagNames
  | palette (category : Category)
  deriving DecidableEq, Repr

namespace Leaf

def all : List Leaf :=
  [indentUnit, guardLiterals, flatDeclarations, color, italicComments, boldTagNames] ++
    Category.all.map palette

theorem mem_all (leaf : Leaf) : leaf ∈ all := by
  cases leaf with
  | palette category => cases category <;> decide
  | _ => decide

/-- The names that lead to a leaf. -/
def names : Leaf → List String
  | indentUnit => ["reflow", "indent_unit"]
  | guardLiterals => ["reflow", "guard_literals"]
  | flatDeclarations => ["reflow", "flat_declarations"]
  | color => ["render", "color"]
  | italicComments => ["render", "italic_comments"]
  | boldTagNames => ["render", "bold_tag_names"]
  | palette category => ["render", "palette", category.name]

/-- The text that names a leaf: its names with dots between them. -/
def key (leaf : Leaf) : String := ".".intercalate leaf.names

/-- The path that the text means. -/
def path (leaf : Leaf) : Path := ⟨leaf.names.headD "", leaf.names.tail.map .key⟩

/-- The tables that hold leaves. -/
def tables : List (List String) := [["reflow"], ["render"], ["render", "palette"]]

end Leaf

/-- A leaf, and a value of its type. -/
inductive Assignment where
  | indentUnit (unit : String)
  | guardLiterals (b : Bool)
  | flatDeclarations (b : Bool)
  | color (mode : ColorMode)
  | italicComments (b : Bool)
  | boldTagNames (b : Bool)
  | palette (category : Category) (color : Color)
  deriving DecidableEq, Repr

namespace Assignment

def leaf : Assignment → Leaf
  | indentUnit _ => .indentUnit
  | guardLiterals _ => .guardLiterals
  | flatDeclarations _ => .flatDeclarations
  | color _ => .color
  | italicComments _ => .italicComments
  | boldTagNames _ => .boldTagNames
  | palette category _ => .palette category

/-- The value as it is layered; a choice goes by its name. -/
def scalar : Assignment → Scalar
  | indentUnit unit => .text unit
  | guardLiterals b | flatDeclarations b | italicComments b | boldTagNames b => .boolean b
  | color mode => .text mode.name
  | palette _ shade => .text shade.name

/-- The value as an override sets it. -/
def value (assignment : Assignment) : Value := .scalar none assignment.scalar

/-- The value as it is written in a document. -/
def document : Assignment → Toml.Value
  | indentUnit unit => .text unit
  | guardLiterals b | flatDeclarations b | italicComments b | boldTagNames b => .boolean b
  | color mode => .text mode.name
  | palette _ shade => .text shade.name

theorem ofToml_document (origin : Option String) (assignment : Assignment) :
    Value.ofToml origin assignment.document = .scalar origin assignment.scalar := by
  cases assignment <;> simp [document, scalar, Value.ofToml]

end Assignment

/-! ## Settings by their leaves -/

/-- What a leaf is set to. -/
def get (settings : Settings) : Leaf → Assignment
  | .indentUnit => .indentUnit settings.reflow.indentUnit
  | .guardLiterals => .guardLiterals settings.reflow.guardLiterals
  | .flatDeclarations => .flatDeclarations settings.reflow.flatDeclarations
  | .color => .color settings.render.color
  | .italicComments => .italicComments settings.render.italicComments
  | .boldTagNames => .boldTagNames settings.render.boldTagNames
  | .palette category => .palette category (settings.render.palette.color category)

/-- Changes one leaf. -/
def set (settings : Settings) : Assignment → Settings
  | .indentUnit unit => { settings with reflow.indentUnit := unit }
  | .guardLiterals b => { settings with reflow.guardLiterals := b }
  | .flatDeclarations b => { settings with reflow.flatDeclarations := b }
  | .color mode => { settings with render.color := mode }
  | .italicComments b => { settings with render.italicComments := b }
  | .boldTagNames b => { settings with render.boldTagNames := b }
  | .palette category color =>
    { settings with render.palette := settings.render.palette.setColor color category }

theorem get_set_self (settings : Settings) (assignment : Assignment) :
    (settings.set assignment).get assignment.leaf = assignment := by
  cases assignment with
  | palette category color => cases category <;> rfl
  | _ => rfl

theorem get_set_of_ne (settings : Settings) {assignment : Assignment} {leaf : Leaf}
    (h : assignment.leaf ≠ leaf) : (settings.set assignment).get leaf = settings.get leaf := by
  cases assignment with
  | palette category color =>
      cases leaf with
      | palette other => cases category <;> cases other <;> first | rfl | exact absurd rfl h
      | _ => rfl
  | _ =>
      cases leaf with
      | palette other => rfl
      | _ => first | rfl | exact absurd rfl h

/-! ## The last assignment of a leaf -/

/-- The last assignment of a list that sets a leaf. -/
def lastOf (leaf : Leaf) (assignments : List Assignment) : Option Assignment :=
  (assignments.filter fun assignment => assignment.leaf = leaf).getLast?

theorem lastOf_append (leaf : Leaf) (a b : List Assignment) :
    lastOf leaf (a ++ b) = (lastOf leaf b).or (lastOf leaf a) := by
  rw [lastOf, List.filter_append, List.getLast?_append]
  rfl

theorem lastOf_singleton_self (assignment : Assignment) :
    lastOf assignment.leaf [assignment] = some assignment := by
  simp [lastOf]

theorem lastOf_singleton_of_ne {leaf : Leaf} {assignment : Assignment}
    (h : assignment.leaf ≠ leaf) : lastOf leaf [assignment] = none := by
  simp [lastOf, h]

theorem lastOf_eq_none {leaf : Leaf} {assignments : List Assignment}
    (h : ∀ assignment ∈ assignments, assignment.leaf ≠ leaf) : lastOf leaf assignments = none := by
  rw [lastOf, List.getLast?_eq_none_iff, List.filter_eq_nil_iff]
  simpa using h

/-- After some assignments a leaf is what the last of them set, or as before. -/
theorem get_foldl_set (settings : Settings) (assignments : List Assignment) (leaf : Leaf) :
    (assignments.foldl set settings).get leaf =
      (lastOf leaf assignments).getD (settings.get leaf) := by
  induction assignments generalizing settings with
  | nil => rfl
  | cons assignment assignments ih =>
      rw [List.foldl_cons, ih, ← List.singleton_append, lastOf_append]
      by_cases h : assignment.leaf = leaf
      · rw [← h, lastOf_singleton_self, get_set_self]
        cases lastOf assignment.leaf assignments <;> rfl
      · rw [lastOf_singleton_of_ne h, get_set_of_ne settings h, Option.or_none]

end Settings

end PrettyMarkup
