import PrettyMarkup.Settings.Basic
import PrettyMarkup.Settings.Error

/-!
# Settings from a value

A value is read as settings.  Names that mean nothing are passed over; numbers and
words stand for booleans; what is not a text is written as one.  A group of settings
is a table, or a list of its fields in order.
-/

namespace PrettyMarkup

namespace Settings

open Markup Terminal

/-! ## Single settings -/

/-- The boolean that a word means. -/
def booleanWord? (word : String) : Option Bool :=
  if word ∈ ["1", "true", "on", "yes"] then some true
  else if word ∈ ["0", "false", "off", "no"] then some false
  else none

/-- Reads a boolean. -/
def decodeBoolean : Value → Except Error Bool
  | .scalar _ (.boolean b) => .ok b
  | .scalar _ (.integer n) | .scalar _ (.wideInteger n) => .ok (n != 0)
  | .scalar _ (.decimal x) => .ok !x.isZero
  | .scalar origin (.text s) =>
    let word := Text.lowerCase s
    match booleanWord? word with
    | some b => .ok b
    | none => .error (.wrongForm (.text word) .boolean [] origin)
  | .scalar origin .unit => .error (.wrongForm .unit .boolean [] origin)
  | .list origin _ => .error (.wrongForm .list .boolean [] origin)
  | .table origin _ => .error (.wrongForm .table .boolean [] origin)

/-- Reads a text. -/
def decodeText : Value → Except Error String
  | .scalar _ (.text s) => .ok s
  | .scalar _ (.boolean b) => .ok (if b then "true" else "false")
  | .scalar _ (.integer n) | .scalar _ (.wideInteger n) => .ok (toString n)
  | .scalar _ (.decimal x) => .ok x.toText
  | .scalar origin .unit => .error (.wrongForm .unit .text [] origin)
  | .list origin _ => .error (.wrongForm .list .text [] origin)
  | .table origin _ => .error (.wrongForm .table .text [] origin)

/-- Finds the choice of a name in any case. -/
def choiceOfName {α : Type} (choice : String) (all : List α) (name : α → String)
    (written : String) : Except Error α :=
  match all.find? fun a => Text.lowerCase (name a) == Text.lowerCase written with
  | some a => .ok a
  | none => .error (.unknownChoice choice written)

/-- Reads a choice: its name, or a table with its name as the only key. -/
def decodeChoice {α : Type} (choice : String) (all : List α) (name : α → String) :
    Value → Except Error α
  | .scalar _ (.text s) => choiceOfName choice all name s
  | .table _ [(key, _)] => choiceOfName choice all name key
  | _ => .error (.notChoice choice)

def decodeColorMode : Value → Except Error ColorMode :=
  decodeChoice "ColorMode" ColorMode.all ColorMode.name

def decodeColor : Value → Except Error Color :=
  decodeChoice "PaletteColor" Color.all Color.name

/-! ## Groups -/

namespace Group

/-- Whether a value can be a group at all. -/
def check (group : Group) (value : Value) : Except Error Unit :=
  match value with
  | .table .. | .list .. => .ok ()
  | _ => .error (.notGroup (.ofValue value) group)

/-- Reads the field of a group at an index.  A table may lack it; a list may not. -/
def field? {α : Type} (group : Group) (value : Value) (index : Nat)
    (decode : Value → Except Error α) : Except Error (Option α) :=
  match value with
  | .list _ items =>
    match items[index]? with
    | some item => ((decode item).map some).mapError (Error.within (.index index))
    | none => .error (.tooShort items.length group)
  | _ =>
    let name := group.fields.getD index ""
    match value.entry? name with
    | some item => ((decode item).map some).mapError (Error.within (.key name))
    | none => .ok none

/-- Insists on a field. -/
def require {α : Type} (group : Group) (index : Nat) (found : Option α) : Except Error α :=
  match found with
  | some value => .ok value
  | none => .error (.missingField (group.fields.getD index ""))

end Group

def reflowGroup : Group :=
  ⟨"ReflowConfig", ["indent_unit", "guard_literals", "flat_declarations"]⟩

/-- Reads how a text is laid out. -/
def decodeReflow (value : Value) : Except Error ReflowOptions := do
  let group := reflowGroup
  group.check value
  let indentUnit ← group.field? value 0 decodeText
  let guardLiterals ← group.field? value 1 decodeBoolean
  let flatDeclarations ← group.field? value 2 decodeBoolean
  return {
    indentUnit := ← group.require 0 indentUnit
    guardLiterals := ← group.require 1 guardLiterals
    flatDeclarations := ← group.require 2 flatDeclarations }

/-- The fields of a palette are the categories. -/
def paletteGroup : Group := ⟨"PaletteConfig", Category.all.map Category.name⟩

/-- Reads the colour of each category. -/
def decodePalette (value : Value) : Except Error Palette := do
  let group := paletteGroup
  group.check value
  let punctuation ← group.field? value 0 decodeColor
  let tagName ← group.field? value 1 decodeColor
  let attributeName ← group.field? value 2 decodeColor
  let attributeValue ← group.field? value 3 decodeColor
  let text ← group.field? value 4 decodeColor
  let comment ← group.field? value 5 decodeColor
  let processingInstruction ← group.field? value 6 decodeColor
  return {
    punctuation := ← group.require 0 punctuation
    tagName := ← group.require 1 tagName
    attributeName := ← group.require 2 attributeName
    attributeValue := ← group.require 3 attributeValue
    text := ← group.require 4 text
    comment := ← group.require 5 comment
    processingInstruction := ← group.require 6 processingInstruction }

def renderGroup : Group :=
  ⟨"RenderConfig", ["color", "italic_comments", "bold_tag_names", "palette"]⟩

/-- Reads how a text is shown. -/
def decodeRender (value : Value) : Except Error RenderSettings := do
  let group := renderGroup
  group.check value
  let color ← group.field? value 0 decodeColorMode
  let italicComments ← group.field? value 1 decodeBoolean
  let boldTagNames ← group.field? value 2 decodeBoolean
  let palette ← group.field? value 3 decodePalette
  return {
    color := ← group.require 0 color
    italicComments := ← group.require 1 italicComments
    boldTagNames := ← group.require 2 boldTagNames
    palette := ← group.require 3 palette }

def settingsGroup : Group := ⟨"MarkviewConfig", ["reflow", "render"]⟩

/-- Reads all settings. -/
def decode (value : Value) : Except Error Settings := do
  let group := settingsGroup
  group.check value
  let reflow ← group.field? value 0 decodeReflow
  let render ← group.field? value 1 decodeRender
  return {
    reflow := ← group.require 0 reflow
    render := ← group.require 1 render }

/-- An indent unit with a line break would cut every indented line in two. -/
def checkIndent (settings : Settings) : Except Error Settings :=
  if settings.reflow.indentUnit.toList.any Text.isLineBreak then
    .error (.breaksLines settings.reflow.indentUnit)
  else .ok settings

end Settings

end PrettyMarkup
