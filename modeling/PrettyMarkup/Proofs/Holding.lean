import PrettyMarkup.Proofs.Decoding

/-!
# What changes the settings that a value holds

An override sets one leaf of the settings that a layered value holds, and merging a document sets
the leaves that the document assigns, one after another.

## Implementation notes

A document is a tree, and its tables are merged one in another; so what is proved of a document is
stated of the entries at any place of the tree (`Writes`, `HoldsAt.mergeEntries`).
-/

namespace PrettyMarkup

namespace Settings

open Markup Terminal

/-! ## Names of leaves -/

theorem Leaf.eq_of_names_prefix {a b : Leaf} (h : a.names <+: b.names) : a = b := by
  have hall : ∀ a ∈ all, ∀ b ∈ all, a.names <+: b.names → a = b := by decide +kernel
  exact hall a a.mem_all b b.mem_all h

theorem Leaf.names_not_mem_tables (leaf : Leaf) : leaf.names ∉ tables := by
  have hall : ∀ leaf ∈ all, leaf.names ∉ tables := by decide +kernel
  exact hall leaf leaf.mem_all

theorem Leaf.parse_key (leaf : Leaf) : Path.parse leaf.key = .ok leaf.path := by
  cases leaf with
  | palette category => cases category <;> rfl
  | _ => rfl

/-- Names of leaves and tables are in lower case. -/
theorem Leaf.lowerCase_of_mem {leaf : Leaf} {name : String} (h : name ∈ leaf.names) :
    Text.lowerCase name = name := by
  have hall : ∀ leaf ∈ all, ∀ name ∈ leaf.names,
      ∀ c ∈ name.toList, 0x5F ≤ c.toNat ∧ c.toNat ≤ 0x7A := by decide +kernel
  exact Text.lowerCase_eq_self (hall leaf leaf.mem_all name h)

theorem Leaf.lowerCase_of_mem_tables {place : List String} {name : String}
    (h : place ++ [name] ∈ tables) : Text.lowerCase name = name := by
  obtain ⟨leaf, next, rest, hleaf⟩ := exists_names_of_mem_tables h
  have hmem : name ∈ leaf.names := by
    rw [hleaf]
    simp
  exact lowerCase_of_mem hmem

/-! ## Overrides -/

namespace Value

theorem entry?_setEntry_self (value : Value) (name : String) (new : Value) :
    Value.entry? (value.setEntry name new) name = some new :=
  Entries.get?_put_self name new _

theorem entry?_setEntry_of_ne (value : Value) {name other : String} (h : other ≠ name)
    (new : Value) : Value.entry? (value.setEntry name new) other = value.entry? other :=
  Entries.get?_put_of_ne h new _

/-- Sets what names lead to, and makes the tables that are missing on the way. -/
def putAt (value : Value) (names : List String) (new : Value) : Value :=
  match names with
  | [] => new
  | name :: rest => value.setEntry name (((value.entry? name).getD unit).putAt rest new)

theorem at?_putAt_self (value : Value) (names : List String) (new : Value) :
    (value.putAt names new).at? names = some new := by
  induction names generalizing value with
  | nil => rfl
  | cons name rest ih => rw [putAt, at?, entry?_setEntry_self, Option.bind_some, ih]

/-- What stands elsewhere stays as it is. -/
theorem at?_putAt_of_not_prefix {value : Value} {names other : List String} (h : ¬names <+: other)
    (h' : ¬other <+: names) (new : Value) :
    (value.putAt names new).at? other = value.at? other := by
  induction names generalizing value other with
  | nil => exact absurd List.nil_prefix h
  | cons name rest ih =>
      cases other with
      | nil => exact absurd List.nil_prefix h'
      | cons first other =>
          rw [putAt, at?, at?]
          by_cases hname : first = name
          · subst hname
            rw [List.cons_prefix_cons, not_and] at h h'
            rw [Value.entry?_setEntry_self, Option.bind_some, ih (h rfl) (h' rfl)]
            cases value.entry? first with
            | some item => rfl
            | none =>
                cases other with
                | nil => exact absurd List.nil_prefix (h' rfl)
                | cons second other => rfl
          · rw [Value.entry?_setEntry_of_ne value hname]

theorem mergeEntry_scalar (value : Value) {name : String} (hname : Text.lowerCase name = name)
    (origin : Option String) (incoming : Scalar) :
    value.mergeEntry name (.scalar origin incoming) =
      value.setEntry name (.scalar origin incoming) := by
  rw [mergeEntry, hname]

theorem update?_map_key {names : List String} {last : String}
    (hnames : ∀ name ∈ names ++ [last], Text.lowerCase name = name) (value : Value)
    (origin : Option String) (incoming : Scalar) :
    value.update? (names.map .key)
        (fun parent => some (parent.mergeEntry last (.scalar origin incoming))) =
      some (value.putAt (names ++ [last]) (.scalar origin incoming)) := by
  induction names generalizing value with
  | nil =>
      have hlast : Text.lowerCase last = last := hnames last (by simp)
      rw [List.map_nil, update?, mergeEntry_scalar value hlast]
      rfl
  | cons name names ih =>
      have hname : Text.lowerCase name = name := hnames name (by simp)
      have hrest := ih fun other hother => hnames other (List.mem_cons_of_mem _ hother)
      rw [List.map_cons, update?]
      simp only [hname, hrest]
      rfl

/-- A path of keys sets what its names lead to. -/
theorem setPath?_map_key {root last : String} {names : List String}
    (hnames : ∀ name ∈ root :: (names ++ [last]), Text.lowerCase name = name) (value : Value)
    (origin : Option String) (incoming : Scalar) :
    value.setPath? ⟨root, (names ++ [last]).map .key⟩ (.scalar origin incoming) =
      some (value.putAt (root :: (names ++ [last])) (.scalar origin incoming)) := by
  have hupdate := @update?_map_key (root :: names) last hnames value origin incoming
  rw [setPath?, List.map_append, List.map_singleton, List.getLast?_concat, List.dropLast_concat]
  exact hupdate

end Value

/-- A path to a leaf is its names. -/
theorem Leaf.exists_path_eq (leaf : Leaf) : ∃ root names last,
    leaf.names = root :: (names ++ [last]) ∧
      leaf.path = ⟨root, (names ++ [last]).map .key⟩ := by
  cases leaf with
  | palette category => exact ⟨"render", ["palette"], category.name, rfl, rfl⟩
  | _ => exact ⟨_, [], _, rfl, rfl⟩

/-- An override sets its leaf. -/
theorem Holds.setPath? {value : Value} {settings : Settings} (h : Holds value settings)
    (assignment : Assignment) :
    ∃ new, value.setPath? assignment.leaf.path assignment.value = some new ∧
      Holds new (settings.set assignment) := by
  obtain ⟨root, names, last, hnames, hpath⟩ := assignment.leaf.exists_path_eq
  have hlower : ∀ name ∈ root :: (names ++ [last]), Text.lowerCase name = name := by
    rw [← hnames]
    exact fun name => Leaf.lowerCase_of_mem
  refine ⟨_, by rw [hpath]; exact Value.setPath?_map_key hlower value none _, ?_⟩
  rw [← hnames]
  intro leaf name rest hleaf
  rw [List.nil_append] at hleaf
  rw [← hleaf]
  by_cases hsame : assignment.leaf = leaf
  · rw [← hsame, get_set_self, Value.at?_putAt_self]
    exact ⟨none, rfl⟩
  · rw [get_set_of_ne settings hsame, Value.at?_putAt_of_not_prefix
      (fun hprefix => hsame (Leaf.eq_of_names_prefix hprefix))
      (fun hprefix => hsame (Leaf.eq_of_names_prefix hprefix).symm), hleaf]
    exact h leaf name rest hleaf

/-! ## Files -/

/-- The entries of a document at a place set some leaves: an entry is a leaf with a value of its
type, or a table of such entries. -/
inductive Writes : List String → List (String × Toml.Value) → List Assignment → Prop
  | nil {place : List String} : Writes place [] []
  | leaf {place : List String} {name : String} {entries : List (String × Toml.Value)}
      {assignments : List Assignment} (assignment : Assignment)
      (hname : assignment.leaf.names = place ++ [name]) (h : Writes place entries assignments) :
      Writes place ((name, assignment.document) :: entries) (assignment :: assignments)
  | table {place : List String} {name : String} {form : Toml.Form}
      {inner entries : List (String × Toml.Value)} {below assignments : List Assignment}
      (hname : place ++ [name] ∈ Leaf.tables) (hinner : Writes (place ++ [name]) inner below)
      (h : Writes place entries assignments) :
      Writes place ((name, .table form inner) :: entries) (below ++ assignments)

/-- The leaves that entries set are below the place of the entries. -/
theorem Writes.prefix_names {place : List String} {entries : List (String × Toml.Value)}
    {assignments : List Assignment} (h : Writes place entries assignments) {assignment : Assignment}
    (hmem : assignment ∈ assignments) : place <+: assignment.leaf.names := by
  induction h with
  | nil => simp at hmem
  | leaf first hname _ ih =>
      rcases List.mem_cons.1 hmem with rfl | hmem
      · exact ⟨_, hname.symm⟩
      · exact ih hmem
  | table _ _ _ ihinner ih =>
      rcases List.mem_append.1 hmem with hmem | hmem
      · exact (List.prefix_append _ _).trans (ihinner hmem)
      · exact ih hmem

/-- A value below a place is set by an entry of the place. -/
theorem HoldsAt.setEntry {place : List String} {value new : Value} {before after : Settings}
    {name : String} (h : HoldsAt place value before)
    (hnew : ∀ leaf : Leaf, ∀ rest, leaf.names = place ++ name :: rest →
      ∃ origin, new.at? rest = some (.scalar origin (after.get leaf).scalar))
    (hother : ∀ leaf : Leaf, ¬place ++ [name] <+: leaf.names → after.get leaf = before.get leaf) :
    HoldsAt place (value.setEntry name new) after := by
  intro leaf first rest hleaf
  by_cases hfirst : first = name
  · subst hfirst
    rw [Value.at?, Value.entry?_setEntry_self, Option.bind_some]
    exact hnew leaf rest hleaf
  · have hunder : ¬place ++ [name] <+: leaf.names := by
      rw [hleaf, List.prefix_append_right_inj, List.cons_prefix_cons]
      exact fun hprefix => hfirst hprefix.1.symm
    rw [Value.at?, Value.entry?_setEntry_of_ne value hfirst, hother leaf hunder]
    exact h leaf first rest hleaf

/-- An entry that is a leaf sets this leaf. -/
theorem HoldsAt.setEntry_leaf {place : List String} {value : Value} {settings : Settings}
    (h : HoldsAt place value settings) {name : String} {assignment : Assignment}
    (hname : assignment.leaf.names = place ++ [name]) (origin : Option String) :
    HoldsAt place (value.setEntry name (.scalar origin assignment.scalar))
      (settings.set assignment) := by
  apply h.setEntry
  · intro leaf rest hleaf
    have hunder : assignment.leaf.names <+: leaf.names := by
      rw [hname, hleaf]
      exact ⟨rest, by simp⟩
    obtain rfl := Leaf.eq_of_names_prefix hunder
    obtain rfl : rest = [] := by simpa [hname] using hleaf
    rw [get_set_self]
    exact ⟨origin, rfl⟩
  · intro leaf hunder
    apply get_set_of_ne
    rintro rfl
    rw [hname] at hunder
    exact hunder List.prefix_rfl

/-- An entry that is a table sets the leaves that are set in the table. -/
theorem HoldsAt.setEntry_table {place : List String} {value new : Value} {settings : Settings}
    (h : HoldsAt place value settings) {name : String} (hname : place ++ [name] ∈ Leaf.tables)
    {below : List Assignment} (hnew : HoldsAt (place ++ [name]) new (below.foldl set settings))
    (hbelow : ∀ assignment ∈ below, place ++ [name] <+: assignment.leaf.names) :
    HoldsAt place (value.setEntry name new) (below.foldl set settings) := by
  apply h.setEntry
  · intro leaf rest hleaf
    cases rest with
    | nil => exact absurd (hleaf ▸ hname) leaf.names_not_mem_tables
    | cons next rest =>
        apply hnew
        rw [hleaf, List.append_assoc]
        rfl
  · intro leaf hunder
    rw [get_foldl_set, lastOf_eq_none, Option.getD_none]
    rintro assignment hmem rfl
    exact hunder (hbelow assignment hmem)

/-- Merging the entries of a document sets their leaves. -/
theorem HoldsAt.mergeEntries {place : List String} {entries : List (String × Toml.Value)}
    {assignments : List Assignment} (hwrites : Writes place entries assignments) {value : Value}
    {settings : Settings} (h : HoldsAt place value settings) (origin : Option String) :
    HoldsAt place (value.mergeEntries (Value.ofTomlEntries origin entries))
      (assignments.foldl set settings) := by
  -- the value is left open, since a table is merged into what stands under its name already
  induction hwrites generalizing value settings with
  | nil =>
      rw [Value.ofTomlEntries, Value.mergeEntries]
      exact h
  | @leaf place name entries assignments assignment hname _ ih =>
      have hmem : name ∈ assignment.leaf.names := by
        rw [hname]
        simp
      rw [Value.ofTomlEntries, Value.mergeEntries, Assignment.ofToml_document,
        Value.mergeEntry_scalar value (Leaf.lowerCase_of_mem hmem)]
      exact ih (h.setEntry_leaf hname origin)
  | @table place name form inner entries below assignments hname hinner _ ihinner ih =>
      obtain ⟨item, hitem, hbelow⟩ := h.exists_table name hname
      rw [Value.ofTomlEntries, Value.mergeEntries, Value.ofToml, Value.mergeEntry,
        Leaf.lowerCase_of_mem_tables hname, hitem, Option.getD_some, List.foldl_append]
      exact ih (h.setEntry_table hname (ihinner hbelow) fun _ => hinner.prefix_names)

theorem setNamed?_table {name : String} (h : [name] ∈ Leaf.tables) (value incoming : Value) :
    value.setNamed? name incoming = some (value.mergeEntry name incoming) := by
  simp only [Leaf.tables, List.mem_cons, List.cons.injEq, List.not_mem_nil, or_false] at h
  rcases h with ⟨rfl, -⟩ | ⟨rfl, -⟩ | ⟨rfl, h⟩
  · rfl
  · rfl
  · simp at h

/-- A layer whose names are those of tables is merged entry by entry. -/
theorem mergeLayer_of_writes {entries : List (String × Toml.Value)} {assignments : List Assignment}
    (h : Writes [] entries assignments) (value : Value) (origin : Option String) :
    mergeLayer value (Value.ofTomlEntries origin entries) =
      .ok (value.mergeEntries (Value.ofTomlEntries origin entries)) := by
  generalize hplace : ([] : List String) = place at h
  induction h generalizing value with
  | nil =>
      rw [Value.ofTomlEntries, Value.mergeEntries]
      rfl
  | leaf assignment hname _ _ =>
      obtain ⟨root, names, last, hnames, -⟩ := assignment.leaf.exists_path_eq
      rw [← hplace, hnames] at hname
      simp at hname
  | table hname _ _ _ ih =>
      subst hplace
      rw [Value.ofTomlEntries, Value.mergeEntries, ← ih _ rfl, mergeLayer, List.foldlM_cons]
      simp only [setNamed?_table hname]
      rfl

end Settings

end PrettyMarkup
