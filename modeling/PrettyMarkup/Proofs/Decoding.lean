import PrettyMarkup.Settings.Leaf

/-!
# Settings are read from a value that holds them

A layered value holds settings if each leaf of theirs is found in it under the names of the leaf
(`Holds`).  Reading such a value gives the settings (`decode_of_holds`).  The value that settings
are written as holds them; the standard settings, over which all sources are merged, are a case of
that.

## Implementation notes

A value is a tree.  What is proved of a whole value is therefore stated of the value at any place of
the tree (`HoldsAt`).
-/

namespace PrettyMarkup

namespace Settings

open Markup Terminal

/-! ## Choices -/

/-- A choice is found under its own name, if names are in lower case. -/
theorem choiceOfName_name {α : Type} {all : List α} {name : α → String} {a : α} (choice : String)
    (hlower : ∀ b, Text.lowerCase (name b) = name b)
    (hfind : (all.find? fun b => name b == name a) = some a) :
    choiceOfName choice all name (name a) = .ok a := by
  simp only [choiceOfName, hlower]
  rw [hfind]

theorem lowerCase_name_color (color : Color) : Text.lowerCase color.name = color.name :=
  Text.lowerCase_eq_self (by cases color <;> decide)

theorem lowerCase_name_colorMode (mode : ColorMode) : Text.lowerCase mode.name = mode.name :=
  Text.lowerCase_eq_self (by cases mode <;> decide)

@[simp] theorem decodeColor_name (origin : Option String) (color : Color) :
    decodeColor (.scalar origin (.text color.name)) = .ok color :=
  choiceOfName_name _ lowerCase_name_color (by cases color <;> decide)

@[simp] theorem decodeColorMode_name (origin : Option String) (mode : ColorMode) :
    decodeColorMode (.scalar origin (.text mode.name)) = .ok mode :=
  choiceOfName_name _ lowerCase_name_colorMode (by cases mode <;> decide)

/-! ## Values that hold settings -/

namespace Value

/-- The value that names lead to. -/
def at? (value : Value) : List String → Option Value
  | [] => some value
  | name :: rest => (value.entry? name).bind fun item => item.at? rest

theorem eq_table_of_entry {value item : Value} {name : String}
    (h : value.entry? name = some item) :
    ∃ origin entries, value = .table origin entries ∧ Entries.get? name entries = some item := by
  cases value with
  | table origin entries => exact ⟨origin, entries, rfl, h⟩
  | _ => simp [asTable, entry?] at h

end Value

/-- Every table is on the way to a leaf. -/
theorem Leaf.exists_names_of_mem_tables {place : List String} (h : place ∈ tables) :
    ∃ leaf : Leaf, ∃ name rest, leaf.names = place ++ name :: rest := by
  simp only [tables, List.mem_cons, List.not_mem_nil, or_false] at h
  rcases h with rfl | rfl | rfl
  · exact ⟨.indentUnit, "indent_unit", [], rfl⟩
  · exact ⟨.color, "color", [], rfl⟩
  · exact ⟨.palette .text, "text", [], rfl⟩

/-- A value at a place of the tree holds the leaves of some settings that are below the place. -/
def HoldsAt (place : List String) (value : Value) (settings : Settings) : Prop :=
  ∀ leaf : Leaf, ∀ name rest, leaf.names = place ++ name :: rest →
    ∃ origin, value.at? (name :: rest) = some (.scalar origin (settings.get leaf).scalar)

/-- A value holds all leaves of some settings. -/
def Holds (value : Value) (settings : Settings) : Prop := HoldsAt [] value settings

section

variable {place : List String} {value : Value} {settings : Settings}

/-- A leaf right below the place. -/
theorem HoldsAt.exists_leaf (h : HoldsAt place value settings) (leaf : Leaf) {name : String}
    (hleaf : leaf.names = place ++ [name]) :
    ∃ origin, value.entry? name = some (.scalar origin (settings.get leaf).scalar) := by
  obtain ⟨origin, hat⟩ := h leaf name [] hleaf
  obtain ⟨item, hitem, hself⟩ := Option.bind_eq_some_iff.1 hat
  cases hself
  exact ⟨origin, hitem⟩

/-- A table below the place holds the leaves that are below the table. -/
theorem HoldsAt.exists_table (h : HoldsAt place value settings) (name : String)
    (htable : place ++ [name] ∈ Leaf.tables) :
    ∃ item, value.entry? name = some item ∧ HoldsAt (place ++ [name]) item settings := by
  obtain ⟨leaf, next, rest, hleaf⟩ := Leaf.exists_names_of_mem_tables htable
  rw [List.append_assoc] at hleaf
  obtain ⟨origin, hat⟩ := h leaf name (next :: rest) hleaf
  obtain ⟨item, hitem, -⟩ := Option.bind_eq_some_iff.1 hat
  refine ⟨item, hitem, ?_⟩
  intro other next rest hother
  rw [List.append_assoc] at hother
  obtain ⟨origin, hat⟩ := h other name (next :: rest) hother
  rw [Value.at?, hitem] at hat
  exact ⟨origin, hat⟩

end

/-! ## Reading what is held -/

theorem decodeText_text (origin : Option String) (s : String) :
    decodeText (.scalar origin (.text s)) = .ok s := rfl

theorem decodeBoolean_boolean (origin : Option String) (b : Bool) :
    decodeBoolean (.scalar origin (.boolean b)) = .ok b := rfl

theorem Group.check_of_entry (group : Group) {value item : Value} {name : String}
    (h : value.entry? name = some item) : group.check value = .ok () := by
  obtain ⟨origin, entries, rfl, -⟩ := Value.eq_table_of_entry h
  rfl

/-- A field of a group is read from the entry of its name. -/
theorem Group.field?_of_entry {α : Type} {group : Group} {value item : Value} {index : Nat}
    {decode : Value → Except Error α} {a : α}
    (hentry : value.entry? (group.fields.getD index "") = some item) (h : decode item = .ok a) :
    group.field? value index decode = .ok (some a) := by
  obtain ⟨origin, entries, rfl, hget⟩ := Value.eq_table_of_entry hentry
  have hitem : Value.entry? (.table origin entries) (group.fields.getD index "") = some item :=
    hget
  simp only [Group.field?, hitem, h]
  rfl

theorem decodeReflow_of_holdsAt {value : Value} {settings : Settings}
    (h : HoldsAt ["reflow"] value settings) : decodeReflow value = .ok settings.reflow := by
  obtain ⟨_, hunit⟩ := h.exists_leaf .indentUnit rfl
  obtain ⟨_, hguard⟩ := h.exists_leaf .guardLiterals rfl
  obtain ⟨_, hflat⟩ := h.exists_leaf .flatDeclarations rfl
  rw [decodeReflow, reflowGroup.check_of_entry hunit,
    Group.field?_of_entry hunit (decodeText_text _ _),
    Group.field?_of_entry hguard (decodeBoolean_boolean _ _),
    Group.field?_of_entry hflat (decodeBoolean_boolean _ _)]
  rfl

theorem decodePalette_of_holdsAt {value : Value} {settings : Settings}
    (h : HoldsAt ["render", "palette"] value settings) :
    decodePalette value = .ok settings.render.palette := by
  have hfield : ∀ category index, paletteGroup.fields.getD index "" = category.name →
      paletteGroup.field? value index decodeColor =
        .ok (some (settings.render.palette.color category)) := by
    intro category index hname
    obtain ⟨origin, hentry⟩ := h.exists_leaf (.palette category) rfl
    exact Group.field?_of_entry (hname ▸ hentry) (decodeColor_name origin _)
  obtain ⟨_, htext⟩ := h.exists_leaf (.palette .text) rfl
  rw [decodePalette, paletteGroup.check_of_entry htext, hfield .punctuation 0 rfl,
    hfield .tagName 1 rfl, hfield .attributeName 2 rfl, hfield .attributeValue 3 rfl,
    hfield .text 4 rfl, hfield .comment 5 rfl, hfield .processingInstruction 6 rfl]
  rfl

theorem decodeRender_of_holdsAt {value : Value} {settings : Settings}
    (h : HoldsAt ["render"] value settings) : decodeRender value = .ok settings.render := by
  obtain ⟨_, hcolor⟩ := h.exists_leaf .color rfl
  obtain ⟨_, hitalic⟩ := h.exists_leaf .italicComments rfl
  obtain ⟨_, hbold⟩ := h.exists_leaf .boldTagNames rfl
  obtain ⟨palette, hpalette, hbelow⟩ := h.exists_table "palette" (by decide)
  rw [decodeRender, renderGroup.check_of_entry hcolor,
    Group.field?_of_entry hcolor (decodeColorMode_name _ _),
    Group.field?_of_entry hitalic (decodeBoolean_boolean _ _),
    Group.field?_of_entry hbold (decodeBoolean_boolean _ _),
    Group.field?_of_entry hpalette (decodePalette_of_holdsAt hbelow)]
  rfl

/-- A value that holds settings is read as them. -/
theorem decode_of_holds {value : Value} {settings : Settings} (h : Holds value settings) :
    decode value = .ok settings := by
  obtain ⟨reflow, hreflow, hbelow⟩ := h.exists_table "reflow" (by decide)
  obtain ⟨render, hrender, hbelow'⟩ := h.exists_table "render" (by decide)
  rw [decode, settingsGroup.check_of_entry hreflow,
    Group.field?_of_entry hreflow (decodeReflow_of_holdsAt hbelow),
    Group.field?_of_entry hrender (decodeRender_of_holdsAt hbelow')]
  rfl

theorem holds_toValue (settings : Settings) : Holds (toValue settings) settings := by
  intro leaf name rest hleaf
  rw [List.nil_append] at hleaf
  rw [← hleaf]
  refine ⟨none, ?_⟩
  cases leaf with
  | palette category => cases category <;> rfl
  | _ => rfl

/-- Settings are read back from their value. -/
theorem decode_toValue (settings : Settings) : decode (toValue settings) = .ok settings :=
  decode_of_holds (holds_toValue settings)

/-- Where the merged sources are the value of some settings, only the check is left to pass. -/
theorem Loader.build_of_merged {folder : Folder} {loader : Loader} {settings : Settings}
    (h : loader.merged folder = .ok (toValue settings)) :
    loader.build folder = checkIndent settings := by
  rw [Loader.build, h]
  simp only [bind, Except.bind, decode_toValue]

end Settings

end PrettyMarkup
