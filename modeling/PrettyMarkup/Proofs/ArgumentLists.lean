import PrettyMarkup.CommandLine.Arguments

/-!
# Lists of arguments

Lists are read from left to right, and what is read depends on the arguments set so far only through
the setters.  So a relation that the setters keep is kept by reading.

The arguments that a list is read as can be listed again: each value behind the equals sign of its
long option, the path behind `--`.  So where a list asks for one format, some list asks for all the
same in another.

## Implementation notes

An option may look for its value in the next argument, so both functions of the reader are compared
at once.
-/

namespace PrettyMarkup

namespace CommandLine

open Terminal

/-! ## Reading up to a relation -/

/-- The same request, up to a relation of the arguments. -/
inductive Command.Rel (r : Arguments → Arguments → Prop) : Command → Command → Prop
  | version : Rel r .version .version
  | help : Rel r .help .help
  | view {a b : Arguments} (h : r a b) : Rel r (.view a) (.view b)

/-- A relation of arguments that is kept where both are set alike. -/
structure Arguments.Stable (r : Arguments → Arguments → Prop) : Prop where
  setValue {a b : Arguments} (h : r a b) (option : ValueOption) (value : String) :
    Option.Rel r (a.setValue option value) (b.setValue option value)
  setSwitch {a b : Arguments} (h : r a b) (switch : Switch) :
    Option.Rel r (a.setSwitch switch) (b.setSwitch switch)
  setPath {a b : Arguments} (h : r a b) (path : String) :
    Option.Rel r (a.setPath path) (b.setPath path)

/-- Lists that are read as related requests, whatever related arguments are set before. -/
def ReadAlike (r : Arguments → Arguments → Prop) (l l' : List String) : Prop :=
  ∀ a b, r a b → Option.Rel (Command.Rel r) (Command.readFrom a l) (Command.readFrom b l') ∧
    ∀ option, Option.Rel (Command.Rel r) (Command.readFrom.readValue a option l)
      (Command.readFrom.readValue b option l')

theorem rel_bind {α β : Type} {r : α → α → Prop} {s : β → β → Prop} {x y : Option α}
    {f g : α → Option β} (h : Option.Rel r x y)
    (hfg : ∀ a b, r a b → Option.Rel s (f a) (g b)) : Option.Rel s (x.bind f) (y.bind g) := by
  cases h with
  | none => exact .none
  | some h => exact hfg _ _ h

theorem ofArgument_eq_separator_iff {argument : String} :
    Word.ofArgument argument = .separator ↔ argument = "--" := by
  constructor
  · intro h
    rw [Word.ofArgument] at h
    split at h
    · rename_i hchars
      exact String.toList_inj.1 hchars
    all_goals cases h
  · rintro rfl
    rfl

section

variable {r : Arguments → Arguments → Prop}

theorem Arguments.Stable.setPaths (hr : Stable r) {a b : Arguments} (h : r a b)
    (paths : List String) : Option.Rel r (a.setPaths paths) (b.setPaths paths) := by
  induction paths generalizing a b with
  | nil => exact .some h
  | cons path paths ih => exact rel_bind (hr.setPath h path) fun a b h => ih h

namespace ReadAlike

theorem nil : ReadAlike r [] [] := by
  intro a b h
  rw [Command.readFrom, Command.readFrom]
  refine ⟨.some (.view h), ?_⟩
  intro option
  rw [Command.readFrom.readValue, Command.readFrom.readValue]
  exact .none

theorem paths (hr : Arguments.Stable r) (paths : List String) :
    ReadAlike r ("--" :: paths) ("--" :: paths) := by
  intro a b h
  have hword : Word.ofArgument "--" = .separator := ofArgument_eq_separator_iff.2 rfl
  constructor
  · simp only [Command.readFrom, hword]
    rw [Option.map_eq_bind, Option.map_eq_bind]
    exact rel_bind (hr.setPaths h paths) fun a b h => .some (.view h)
  · intro option
    simp only [Command.readFrom.readValue, hword]
    exact .none

/-- An argument in front is read alike, and so is what is left behind it. -/
theorem cons (hr : Arguments.Stable r) {argument : String} (hne : argument ≠ "--")
    {l l' : List String} (hrest : ReadAlike r l l') :
    ReadAlike r (argument :: l) (argument :: l') := by
  intro a b h
  -- each way of going on is a setter and then one of the two functions on what is left
  constructor
  · simp only [Command.readFrom]
    cases hword : Word.ofArgument argument with
    | separator => exact absurd (ofArgument_eq_separator_iff.1 hword) hne
    | plain text => exact rel_bind (hr.setPath h text) fun a b h => (hrest a b h).1
    | long name attached =>
        dsimp only
        split
        · exact rel_bind (hr.setValue h _ _) fun a b h => (hrest a b h).1
        · exact (hrest a b h).2 _
        · exact .none
        · split
          · exact .some .version
          · split
            · exact .some .help
            · cases Switch.ofLong? name with
              | none => exact .none
              | some switch =>
                  have hset := rel_bind (hr.setSwitch h switch) fun a b h => (hrest a b h).1
                  exact hset
    | short name attached =>
        dsimp only
        split
        · exact rel_bind (hr.setValue h _ _) fun a b h => (hrest a b h).1
        · exact (hrest a b h).2 _
        · split
          · exact .some .version
          · split
            · exact .some .help
            · exact .none
  · intro option
    simp only [Command.readFrom.readValue]
    cases Word.ofArgument argument with
    | plain text => exact rel_bind (hr.setValue h option text) fun a b h => (hrest a b h).1
    | _ => exact .none

theorem refl (hr : Arguments.Stable r) (l : List String) : ReadAlike r l l := by
  induction l with
  | nil => exact nil
  | cons argument l ih =>
      by_cases h : argument = "--"
      · rw [h]
        exact paths hr l
      · exact cons hr h ih

end ReadAlike

end

/-! ## Arguments as a list -/

namespace ValueOption

def name : ValueOption → String
  | format => "format"
  | config => "config"
  | indent => "indent"
  | color => "color"
  | logLevel => "log-level"

@[simp] theorem ofLong?_name (option : ValueOption) : ofLong? option.name = some option := by
  cases option <;> rfl

theorem all_name_ne_equals (option : ValueOption) :
    option.name.toList.all (· != '=') = true := by
  cases option <;> rfl

/-- An option with its value in one argument, if it has one. -/
def listed (option : ValueOption) (value : Option String) : List String :=
  (value.map fun value => "--" ++ option.name ++ "=" ++ value).toList

end ValueOption

namespace Switch

def name : Switch → String
  | guardLiterals => "guard-literals"
  | flatDeclarations => "flat-declarations"
  | raw => "raw"

def listed (switch : Switch) (on : Bool) : List String :=
  if on then ["--" ++ switch.name] else []

end Switch

/-- A list that is read as some arguments. -/
def Arguments.listed (arguments : Arguments) : List String :=
  ValueOption.format.listed (arguments.format.map Format.name) ++
    (ValueOption.config.listed arguments.config ++
      (ValueOption.indent.listed arguments.indent ++
        (ValueOption.color.listed (arguments.color.map ColorMode.name) ++
          (ValueOption.logLevel.listed arguments.logLevel ++
            (Switch.guardLiterals.listed arguments.guardLiterals ++
              (Switch.flatDeclarations.listed arguments.flatDeclarations ++
                (Switch.raw.listed arguments.raw ++ "--" :: arguments.path.toList)))))))

/-! ## Reading what is listed -/

theorem ofArgument_listed (option : ValueOption) (value : String) :
    Word.ofArgument ("--" ++ option.name ++ "=" ++ value) = .long option.name (some value) := by
  have hchars : ("--" ++ option.name ++ "=" ++ value).toList =
      '-' :: '-' :: (option.name.toList ++ '=' :: value.toList) := by
    simp
  have hname := List.all_eq_true.1 option.all_name_ne_equals
  have htake : (option.name.toList ++ '=' :: value.toList).takeWhile (· != '=') =
      option.name.toList := by
    rw [List.takeWhile_append_of_pos hname, List.takeWhile_cons_of_neg (by simp), List.append_nil]
  have hdrop : (option.name.toList ++ '=' :: value.toList).dropWhile (· != '=') =
      '=' :: value.toList := by
    rw [List.dropWhile_append_of_pos hname, List.dropWhile_cons_of_neg (by simp)]
  rw [Word.ofArgument, hchars]
  split
  · rename_i hnil
    simp at hnil
  · rename_i hrest
    simp only [List.cons.injEq, true_and] at hrest
    rw [← hrest, htake, hdrop, String.ofList_toList]
    simp only [String.ofList_toList]
  · rename_i hno hrest
    simp only [List.cons.injEq, true_and] at hrest
    exact (hno hrest.1.symm).elim
  · rename_i hno
    simp at hno

section

variable {a b : Arguments} {rest : List String}

theorem readFrom_listed {option : ValueOption} {value : Option String}
    (h : value.elim (some a) (a.setValue option) = some b) :
    Command.readFrom a (option.listed value ++ rest) = Command.readFrom b rest := by
  cases value with
  | none =>
      obtain rfl : a = b := Option.some.inj h
      rfl
  | some text =>
      have hset : a.setValue option text = some b := h
      rw [ValueOption.listed, Option.map_some, Option.toList_some, List.singleton_append,
        Command.readFrom, ofArgument_listed]
      simp only [ValueOption.ofLong?_name, hset]
      rfl

theorem readFrom_listed_switch {switch : Switch} {on : Bool}
    (h : (if on then a.setSwitch switch else some a) = some b) :
    Command.readFrom a (switch.listed on ++ rest) = Command.readFrom b rest := by
  cases on with
  | false =>
      obtain rfl : a = b := Option.some.inj h
      rfl
  | true =>
      have hset : a.setSwitch switch = some b := h
      have hword : Word.ofArgument ("--" ++ switch.name) = .long switch.name none ∧
          ValueOption.ofLong? switch.name = none ∧ Switch.ofLong? switch.name = some switch ∧
          (switch.name == "version") = false ∧ (switch.name == "help") = false := by
        cases switch <;> decide +kernel
      obtain ⟨hword, hvalue, hswitch, hversion, hhelp⟩ := hword
      rw [Switch.listed, if_pos rfl, List.singleton_append, Command.readFrom, hword]
      simp only [hvalue, hversion, hhelp, hswitch, Bool.false_eq_true, if_false]
      exact congrArg (Option.bind · fun a => Command.readFrom a rest) hset

theorem readFrom_format (h : a.format = none) (format : Option Format) :
    Command.readFrom a (ValueOption.format.listed (format.map Format.name) ++ rest) =
      Command.readFrom { a with format } rest := by
  cases a
  cases h
  cases format with
  | none => exact readFrom_listed rfl
  | some format => cases format <;> exact readFrom_listed rfl

theorem readFrom_config (h : a.config = none) (config : Option String) :
    Command.readFrom a (ValueOption.config.listed config ++ rest) =
      Command.readFrom { a with config } rest := by
  cases a
  cases h
  cases config <;> exact readFrom_listed rfl

theorem readFrom_indent (h : a.indent = none) (indent : Option String) :
    Command.readFrom a (ValueOption.indent.listed indent ++ rest) =
      Command.readFrom { a with indent } rest := by
  cases a
  cases h
  cases indent <;> exact readFrom_listed rfl

theorem readFrom_color (h : a.color = none) (color : Option ColorMode) :
    Command.readFrom a (ValueOption.color.listed (color.map ColorMode.name) ++ rest) =
      Command.readFrom { a with color } rest := by
  cases a
  cases h
  cases color with
  | none => exact readFrom_listed rfl
  | some mode => cases mode <;> exact readFrom_listed rfl

theorem readFrom_logLevel (h : a.logLevel = none) {logLevel : Option String}
    (hnamed : ∀ level, logLevel = some level → level ∈ logLevelNames) :
    Command.readFrom a (ValueOption.logLevel.listed logLevel ++ rest) =
      Command.readFrom { a with logLevel } rest := by
  cases a
  cases h
  cases logLevel with
  | none => exact readFrom_listed rfl
  | some level =>
      apply readFrom_listed
      simp [Arguments.setValue, hnamed level rfl]

theorem readFrom_guardLiterals (h : a.guardLiterals = false) (guardLiterals : Bool) :
    Command.readFrom a (Switch.guardLiterals.listed guardLiterals ++ rest) =
      Command.readFrom { a with guardLiterals } rest := by
  cases a
  cases h
  cases guardLiterals <;> exact readFrom_listed_switch rfl

theorem readFrom_flatDeclarations (h : a.flatDeclarations = false) (flatDeclarations : Bool) :
    Command.readFrom a (Switch.flatDeclarations.listed flatDeclarations ++ rest) =
      Command.readFrom { a with flatDeclarations } rest := by
  cases a
  cases h
  cases flatDeclarations <;> exact readFrom_listed_switch rfl

theorem readFrom_raw (h : a.raw = false) (raw : Bool) :
    Command.readFrom a (Switch.raw.listed raw ++ rest) = Command.readFrom { a with raw } rest := by
  cases a
  cases h
  cases raw <;> exact readFrom_listed_switch rfl

theorem readFrom_path (h : a.path = none) (path : Option String) :
    Command.readFrom a ("--" :: path.toList) = some (.view { a with path }) := by
  cases a
  cases h
  cases path <;> rfl

end

/-- The level that is set, if any, is one that has a name. -/
def Arguments.LevelNamed (arguments : Arguments) : Prop :=
  ∀ level, arguments.logLevel = some level → level ∈ logLevelNames

/-- What is listed is read back. -/
theorem read_listed {arguments : Arguments} (h : arguments.LevelNamed) :
    Command.read arguments.listed = some (.view arguments) := by
  rw [Command.read, Arguments.listed, readFrom_format rfl, readFrom_config rfl, readFrom_indent rfl,
    readFrom_color rfl, readFrom_logLevel rfl h, readFrom_guardLiterals rfl,
    readFrom_flatDeclarations rfl, readFrom_raw rfl, readFrom_path rfl]

/-! ## Levels that are read -/

namespace Arguments.LevelNamed

variable {a b : Arguments}

theorem setValue (h : a.LevelNamed) {option : ValueOption} {value : String}
    (hset : a.setValue option value = some b) : b.LevelNamed := by
  cases option with
  | logLevel =>
      simp only [Arguments.setValue] at hset
      split at hset
      · cases hset
      · rename_i hvalue
        cases hset
        have hnamed : a.logLevel = .none ∧ value ∈ logLevelNames := by simpa using hvalue
        rintro level ⟨⟩
        exact hnamed.2
  | format =>
      simp only [Arguments.setValue] at hset
      split at hset
      · cases hset
      · obtain ⟨format, -, rfl⟩ := Option.map_eq_some_iff.1 hset
        exact h
  | color =>
      simp only [Arguments.setValue] at hset
      split at hset
      · cases hset
      · obtain ⟨mode, -, rfl⟩ := Option.map_eq_some_iff.1 hset
        exact h
  | config | indent =>
      simp only [Arguments.setValue] at hset
      split at hset
      · cases hset
      · cases hset
        exact h

theorem setSwitch (h : a.LevelNamed) {switch : Switch} (hset : a.setSwitch switch = some b) :
    b.LevelNamed := by
  cases switch with
  | _ =>
      simp only [Arguments.setSwitch] at hset
      split at hset
      · cases hset
      · cases hset
        exact h

theorem setPath (h : a.LevelNamed) {path : String} (hset : a.setPath path = some b) :
    b.LevelNamed := by
  rw [Arguments.setPath] at hset
  split at hset
  · cases hset
  · cases hset
    exact h

end Arguments.LevelNamed

theorem rel_self {α : Type} {p : α → Prop} {x : Option α} (h : ∀ a, x = some a → p a) :
    Option.Rel (fun a b => a = b ∧ p a) x x := by
  cases x with
  | none => exact .none
  | some a => exact .some ⟨rfl, h a rfl⟩

theorem stable_levelNamed : Arguments.Stable fun a b => a = b ∧ a.LevelNamed where
  setValue := by
    rintro a _ ⟨rfl, h⟩ option value
    exact rel_self fun _ => h.setValue
  setSwitch := by
    rintro a _ ⟨rfl, h⟩ switch
    exact rel_self fun _ => h.setSwitch
  setPath := by
    rintro a _ ⟨rfl, h⟩ path
    exact rel_self fun _ => h.setPath

theorem levelNamed_of_read {list : List String} {arguments : Arguments}
    (h : Command.read list = some (.view arguments)) : arguments.LevelNamed := by
  have hnone : Arguments.none.LevelNamed := fun level hlevel => by cases hlevel
  have hread := (ReadAlike.refl stable_levelNamed list _ _ ⟨rfl, hnone⟩).1
  rw [← Command.read, h] at hread
  cases hread with
  | some hview =>
      cases hview with
      | view hnamed => exact hnamed.2

/-- Any format can be asked for in place of the one that some list asks for. -/
theorem exists_read_format {list : List String} {arguments : Arguments}
    (h : Command.read list = some (.view arguments)) (format : Option Format) :
    ∃ other, Command.read other = some (.view { arguments with format }) := by
  have hnamed := levelNamed_of_read h
  have hother : { arguments with format }.LevelNamed := hnamed
  exact ⟨_, read_listed hother⟩

end CommandLine

end PrettyMarkup
