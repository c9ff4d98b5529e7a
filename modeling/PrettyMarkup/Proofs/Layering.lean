import PrettyMarkup.Proofs.Holding

/-!
# The last writer of a setting wins

A loader knows its files and its overrides apart, each in the order of the calls.  Layering a file
makes the assignments of its document, and the overrides make theirs after all files.  So the merged
sources hold the standard settings with all assignments made, and each leaf is what its last writer
set.
-/

namespace PrettyMarkup

namespace Settings

open Markup Terminal

/-! ## Files -/

/-- What stands under the name of a file. -/
inductive FileState where
  | missing
  | undecodable
  | malformed
  | sets (assignments : List Assignment)

namespace FileState

def assignments : FileState → List Assignment
  | sets assignments => assignments
  | _ => []

/-- Whether a file with this state cannot be layered. -/
def fails (required : Bool) : FileState → Bool
  | missing | undecodable => required
  | malformed => true
  | sets _ => false

end FileState

/-- A folder has a file in some state under a name. -/
inductive Finds (folder : Folder) (name : String) : FileState → Prop
  | missing (h : FileLayer.find? folder name = none) : Finds folder name .missing
  | undecodable {shown : String} {bytes : List UInt8}
      (hfind : FileLayer.find? folder name = some (shown, bytes)) (h : Text.decode? bytes = none) :
      Finds folder name .undecodable
  | malformed {shown text : String} {bytes : List UInt8}
      (hfind : FileLayer.find? folder name = some (shown, bytes))
      (hdecode : Text.decode? bytes = some text) (h : Toml.parse? text.toList = none) :
      Finds folder name .malformed
  | sets {shown text : String} {bytes : List UInt8} {form : Toml.Form}
      {entries : List (String × Toml.Value)} {assignments : List Assignment}
      (hfind : FileLayer.find? folder name = some (shown, bytes))
      (hdecode : Text.decode? bytes = some text)
      (hparse : Toml.parse? text.toList = some (.table form entries))
      (h : Writes [] entries assignments) : Finds folder name (.sets assignments)

section Files

variable {folder : Folder}

theorem FileLayer.entries_of_read_eq_error {file : FileLayer} {error : Error}
    (h : FileLayer.read folder file.name = .error error) :
    file.entries folder = if file.required then .error error else .ok [] := by
  rw [FileLayer.entries, h]

theorem Finds.exists_read_eq_error {name : String} {state : FileState} (h : Finds folder name state)
    (hstate : state = .missing ∨ state = .undecodable) :
    ∃ error, FileLayer.read folder name = .error error := by
  cases h with
  | missing h => exact ⟨.missingFile name, by simp [FileLayer.read, h]⟩
  | undecodable hfind h => exact ⟨.undecodable, by simp [FileLayer.read, hfind, h]⟩
  | malformed => simp at hstate
  | sets => simp at hstate

theorem Finds.exists_entries_eq_error {file : FileLayer} {state : FileState}
    (h : Finds folder file.name state) (hfails : state.fails file.required = true) :
    ∃ error, file.entries folder = .error error := by
  cases state with
  | missing | undecodable =>
      obtain ⟨error, hread⟩ := h.exists_read_eq_error (by simp)
      exact ⟨error, (FileLayer.entries_of_read_eq_error hread).trans (if_pos hfails)⟩
  | malformed =>
      cases h with
      | malformed hfind hdecode h =>
          exact ⟨.malformed, by simp [FileLayer.entries, FileLayer.read, hfind, hdecode, h]⟩
  | sets assignments => simp [FileState.fails] at hfails

/-- Layering a file makes its assignments. -/
theorem Finds.exists_mergeLayer_eq_ok {file : FileLayer} {state : FileState}
    (h : Finds folder file.name state) (hfails : state.fails file.required = false) {value : Value}
    {settings : Settings} (hholds : Holds value settings) :
    ∃ layer new, file.entries folder = .ok layer ∧ mergeLayer value layer = .ok new ∧
      Holds new (state.assignments.foldl set settings) := by
  cases state with
  | missing | undecodable =>
      obtain ⟨error, hread⟩ := h.exists_read_eq_error (by simp)
      have hoptional : ¬file.required = true := by simpa [FileState.fails] using hfails
      refine ⟨[], value, ?_, rfl, hholds⟩
      exact (FileLayer.entries_of_read_eq_error hread).trans (if_neg hoptional)
  | malformed => simp [FileState.fails] at hfails
  | sets assignments =>
      cases h with
      | @sets shown _ _ _ _ _ hfind hdecode hparse hwrites =>
          refine ⟨_, _, ?_, mergeLayer_of_writes hwrites value (some shown),
            HoldsAt.mergeEntries hwrites hholds (some shown)⟩
          simp only [FileLayer.entries, FileLayer.read, hfind, hdecode, hparse]

variable {state : String → FileState} {files : List FileLayer}
  (hfiles : ∀ file ∈ files, Finds folder file.name (state file.name))

include hfiles

/-- Layering files makes their assignments in order. -/
theorem exists_foldlM_files_eq_ok
    (hfails : ∀ file ∈ files, (state file.name).fails file.required = false) {value : Value}
    {settings : Settings} (h : Holds value settings) :
    ∃ new, files.foldlM (fun value file => do mergeLayer value (← file.entries folder)) value =
        .ok new ∧
      Holds new ((files.flatMap fun file => (state file.name).assignments).foldl set settings) := by
  induction files generalizing value settings with
  | nil => exact ⟨value, rfl, h⟩
  | cons file files ih =>
      obtain ⟨hfile, hfiles⟩ := List.forall_mem_cons.1 hfiles
      obtain ⟨hfail, hfails⟩ := List.forall_mem_cons.1 hfails
      obtain ⟨layer, middle, hlayer, hmiddle, hholds⟩ := hfile.exists_mergeLayer_eq_ok hfail h
      obtain ⟨new, hnew, hend⟩ := ih hfiles hfails hholds
      refine ⟨new, ?_, ?_⟩
      · rw [List.foldlM_cons, hlayer]
        simp only [bind, Except.bind, hmiddle]
        exact hnew
      · rw [List.flatMap_cons, List.foldl_append]
        exact hend

theorem exists_foldlM_files_eq_error
    (hfails : ∃ file ∈ files, (state file.name).fails file.required = true) (value : Value) :
    ∃ error, files.foldlM (fun value file => do mergeLayer value (← file.entries folder)) value =
      .error error := by
  induction files generalizing value with
  | nil => simp at hfails
  | cons file files ih =>
      obtain ⟨hfile, hfiles⟩ := List.forall_mem_cons.1 hfiles
      cases hstep : (do mergeLayer value (← file.entries folder) : Except Error Value) with
      | error error => exact ⟨error, by rw [List.foldlM_cons, hstep]; rfl⟩
      | ok new =>
          have hrest : ∃ other ∈ files, (state other.name).fails other.required = true := by
            obtain ⟨other, hmem, hfail⟩ := hfails
            rcases List.mem_cons.1 hmem with rfl | hmem
            · obtain ⟨error, herror⟩ := hfile.exists_entries_eq_error hfail
              rw [herror] at hstep
              cases hstep
            · exact ⟨other, hmem, hfail⟩
          rw [List.foldlM_cons, hstep]
          exact ih hfiles hrest new

end Files

/-! ## Loaders -/

/-- A call on a loader. -/
inductive Call where
  | addFile (name : String)
  | addOptionalFile (name : String)
  | override (assignment : Assignment)

namespace Call

/-- What a call makes of a loader. -/
def apply (loader : Loader) : Call → Except Error Loader
  | addFile name => .ok (loader.addFile name)
  | addOptionalFile name => .ok (loader.addOptionalFile name)
  | override assignment => loader.override assignment.leaf.key assignment.value

/-- The file that a call adds. -/
def file? : Call → Option FileLayer
  | addFile name => some ⟨name, true⟩
  | addOptionalFile name => some ⟨name, false⟩
  | override _ => none

/-- The assignment that a call makes over all files. -/
def override? : Call → Option Assignment
  | override assignment => some assignment
  | _ => none

end Call

/-- The loader that calls make of the empty one. -/
def Loader.ofCalls (calls : List Call) : Except Error Loader := calls.foldlM Call.apply .empty

/-- The files that calls add, in order. -/
def filesOf (calls : List Call) : List FileLayer := calls.filterMap Call.file?

/-- The assignments that calls make over all files, in order. -/
def overridesOf (calls : List Call) : List Assignment := calls.filterMap Call.override?

/-- What the last writer of a leaf sets: an override before any file, and a file before the
standard. -/
def lastWritten (state : String → FileState) (calls : List Call) (leaf : Leaf) : Assignment :=
  let inFiles := (filesOf calls).filterMap fun file => lastOf leaf (state file.name).assignments
  ((lastOf leaf (overridesOf calls)).or inFiles.getLast?).getD (standard.get leaf)

/-- Adds an assignment behind those of other leaves. -/
def keep (kept : List Assignment) (assignment : Assignment) : List Assignment :=
  (kept.filter fun other => other.leaf ≠ assignment.leaf) ++ [assignment]

theorem lastOf_keep (leaf : Leaf) (kept : List Assignment) (assignment : Assignment) :
    lastOf leaf (keep kept assignment) = lastOf leaf (kept ++ [assignment]) := by
  rw [keep, lastOf_append, lastOf_append]
  by_cases h : assignment.leaf = leaf
  · rw [← h, lastOf_singleton_self]
    rfl
  · -- only assignments of another leaf than `leaf` were taken out
    have hkept : (kept.filter fun other => other.leaf ≠ assignment.leaf).filter
        (fun other => other.leaf = leaf) = kept.filter fun other => other.leaf = leaf := by
      rw [List.filter_filter]
      apply List.filter_congr
      intro other hother
      grind
    rw [lastOf_singleton_of_ne h, lastOf, hkept]
    rfl

/-- One assignment of each leaf is enough. -/
theorem lastOf_foldl_keep (leaf : Leaf) (kept assignments : List Assignment) :
    lastOf leaf (assignments.foldl keep kept) = lastOf leaf (kept ++ assignments) := by
  induction assignments generalizing kept with
  | nil => rw [List.append_nil]; rfl
  | cons assignment assignments ih =>
      rw [List.foldl_cons, ih, lastOf_append, lastOf_keep, ← lastOf_append, List.append_assoc]
      rfl

/-- Assignments as a loader keeps them. -/
def entriesOf (assignments : List Assignment) : List (Path × Value) :=
  assignments.map fun assignment => (assignment.leaf.path, assignment.value)

theorem Leaf.path_inj {a b : Leaf} : a.path = b.path ↔ a = b := by
  have hall : ∀ a ∈ all, ∀ b ∈ all, a.path = b.path ↔ a = b := by decide +kernel
  exact hall a a.mem_all b b.mem_all

theorem Loader.override_key (files : List FileLayer) (kept : List Assignment)
    (assignment : Assignment) :
    Loader.override ⟨files, entriesOf kept⟩ assignment.leaf.key assignment.value =
      .ok ⟨files, entriesOf (keep kept assignment)⟩ := by
  have hfilter : (entriesOf kept).filter (fun entry => entry.1 != assignment.leaf.path) =
      entriesOf (kept.filter fun other => other.leaf ≠ assignment.leaf) := by
    rw [entriesOf, List.filter_map]
    congr 1
    apply List.filter_congr
    intro other _
    simp [bne, Leaf.path_inj, Bool.beq_eq_decide_eq]
  simp only [Loader.override, Leaf.parse_key, hfilter]
  simp [keep, entriesOf]

/-- A loader knows the files and the overrides apart, each in their order. -/
theorem Loader.foldlM_apply (calls : List Call) (files : List FileLayer) (kept : List Assignment) :
    calls.foldlM Call.apply ⟨files, entriesOf kept⟩ =
      .ok ⟨files ++ filesOf calls, entriesOf ((overridesOf calls).foldl keep kept)⟩ := by
  induction calls generalizing files kept with
  | nil => simp [filesOf, overridesOf, pure, Except.pure]
  | cons call calls ih =>
      rw [List.foldlM_cons]
      cases call with
      | addFile name =>
          have hrest := ih (files ++ [⟨name, true⟩]) kept
          rw [List.append_assoc] at hrest
          exact hrest
      | addOptionalFile name =>
          have hrest := ih (files ++ [⟨name, false⟩]) kept
          rw [List.append_assoc] at hrest
          exact hrest
      | override assignment =>
          rw [Call.apply, Loader.override_key]
          exact ih files (keep kept assignment)

theorem Loader.ofCalls_eq (calls : List Call) :
    Loader.ofCalls calls =
      .ok ⟨filesOf calls, entriesOf ((overridesOf calls).foldl keep [])⟩ :=
  Loader.foldlM_apply calls [] []

/-- Overrides make their assignments in order. -/
theorem exists_foldlM_overrides_eq_ok {value : Value} {settings : Settings}
    (h : Holds value settings) (kept : List Assignment) :
    ∃ new, (entriesOf kept).foldlM
        (fun value (path, incoming) => changed (value.setPath? path incoming)) value = .ok new ∧
      Holds new (kept.foldl set settings) := by
  induction kept generalizing value settings with
  | nil => exact ⟨value, rfl, h⟩
  | cons assignment kept ih =>
      obtain ⟨middle, hmiddle, hholds⟩ := h.setPath? assignment
      obtain ⟨new, hnew, hend⟩ := ih hholds
      refine ⟨new, ?_, hend⟩
      rw [entriesOf, List.map_cons, List.foldlM_cons]
      simp only [hmiddle]
      exact hnew

theorem lastOf_flatMap {α : Type} (leaf : Leaf) (l : List α) (f : α → List Assignment) :
    lastOf leaf (l.flatMap f) = (l.filterMap fun a => lastOf leaf (f a)).getLast? := by
  induction l with
  | nil => rfl
  | cons a l ih =>
      rw [List.flatMap_cons, lastOf_append, ih, List.filterMap_cons]
      cases lastOf leaf (f a) with
      | none => exact Option.or_none
      | some assignment => rw [List.getLast?_cons]; cases List.getLast? _ <;> rfl

/-- Whether a text has the end of a line in it. -/
def HoldsBreak (text : String) : Prop := ∃ c ∈ text.toList, c = '\n' ∨ c = '\r'

theorem any_isLineBreak_iff (text : String) :
    text.toList.any Text.isLineBreak = true ↔ HoldsBreak text := by
  rw [List.any_eq_true]
  apply exists_congr
  intro c
  rw [Text.isLineBreak, Bool.or_eq_true, beq_iff_eq, beq_iff_eq, or_comm]

section Build

variable {folder : Folder} {calls : List Call} {state : String → FileState}

/-- The standard settings with all assignments made, those of files before the overrides. -/
def written (state : String → FileState) (calls : List Call) : Settings :=
  ((overridesOf calls).foldl keep []).foldl set
    (((filesOf calls).flatMap fun file => (state file.name).assignments).foldl set standard)

theorem get_written (leaf : Leaf) :
    (written state calls).get leaf = lastWritten state calls leaf := by
  rw [written, get_foldl_set, get_foldl_set, lastOf_foldl_keep, List.nil_append, lastOf_flatMap,
    lastWritten]
  cases lastOf leaf (overridesOf calls) <;> rfl

variable (hfiles : ∀ file ∈ filesOf calls, Finds folder file.name (state file.name))

include hfiles

theorem build_eq_error
    (hfails : ∃ file ∈ filesOf calls, (state file.name).fails file.required = true)
    (overrides : List (Path × Value)) :
    ∃ error, Loader.build folder ⟨filesOf calls, overrides⟩ = .error error := by
  obtain ⟨error, herror⟩ := exists_foldlM_files_eq_error hfiles hfails (toValue standard)
  refine ⟨error, ?_⟩
  rw [Loader.build, Loader.merged, herror]
  rfl

/-- Where every file can be layered, what is left is the check of the settings written. -/
theorem build_eq_checkIndent
    (hfails : ∀ file ∈ filesOf calls, (state file.name).fails file.required = false) :
    Loader.build folder ⟨filesOf calls, entriesOf ((overridesOf calls).foldl keep [])⟩ =
      checkIndent (written state calls) := by
  obtain ⟨base, hbase, hholds⟩ := exists_foldlM_files_eq_ok hfiles hfails (holds_toValue standard)
  obtain ⟨value, hvalue, hwritten⟩ :=
    exists_foldlM_overrides_eq_ok hholds ((overridesOf calls).foldl keep [])
  have hmerged : Loader.merged folder
      ⟨filesOf calls, entriesOf ((overridesOf calls).foldl keep [])⟩ = .ok value := by
    rw [Loader.merged, hbase]
    exact hvalue
  rw [Loader.build, hmerged]
  simp only [bind, Except.bind, decode_of_holds hwritten]
  rfl

end Build

/-- The last writer of every leaf wins: an override before any file, a later file before an earlier
one, and the standard last.  Settings fail to load only by a file, or by the indent unit that
results.  The overrides may stand anywhere among the files. -/
theorem build_ofCalls {folder : Folder} {calls : List Call} {state : String → FileState}
    (hfiles : ∀ file ∈ filesOf calls, Finds folder file.name (state file.name)) :
    ∃ loader, Loader.ofCalls calls = .ok loader ∧
      ((∃ error, loader.build folder = .error error) ↔
        (∃ file ∈ filesOf calls, state file.name = .malformed ∨
          file.required = true ∧ (state file.name = .missing ∨ state file.name = .undecodable)) ∨
        ∃ unit, lastWritten state calls .indentUnit = .indentUnit unit ∧ HoldsBreak unit) ∧
      (∀ settings, loader.build folder = .ok settings →
        ∀ leaf, settings.get leaf = lastWritten state calls leaf) ∧
      ∀ others, filesOf others = filesOf calls → overridesOf others = overridesOf calls →
        Loader.ofCalls others = .ok loader := by
  have hfails : ∀ file : FileLayer, (state file.name).fails file.required = true ↔
      state file.name = .malformed ∨
        file.required = true ∧ (state file.name = .missing ∨ state file.name = .undecodable) := by
    intro file
    cases state file.name <;> simp [FileState.fails]
  have hunit : (∃ unit, lastWritten state calls .indentUnit = .indentUnit unit ∧ HoldsBreak unit) ↔
      HoldsBreak (written state calls).reflow.indentUnit := by
    rw [← get_written, get]
    simp
  refine ⟨_, Loader.ofCalls_eq calls, ?_, ?_, ?_⟩
  · simp only [← hfails]
    rw [hunit, ← any_isLineBreak_iff]
    by_cases hfail : ∃ file ∈ filesOf calls, (state file.name).fails file.required = true
    · exact iff_of_true (build_eq_error hfiles hfail _) (.inl hfail)
    · rw [build_eq_checkIndent hfiles (by simpa using hfail), checkIndent]
      split
      · rename_i hbreak
        exact iff_of_true ⟨_, rfl⟩ (.inr hbreak)
      · rename_i hbreak
        exact iff_of_false (by simp) (not_or.2 ⟨hfail, hbreak⟩)
  · intro settings hbuild leaf
    by_cases hfail : ∃ file ∈ filesOf calls, (state file.name).fails file.required = true
    · obtain ⟨error, herror⟩ := build_eq_error hfiles hfail
        (entriesOf ((overridesOf calls).foldl keep []))
      rw [herror] at hbuild
      cases hbuild
    · rw [build_eq_checkIndent hfiles (by simpa using hfail), checkIndent] at hbuild
      split at hbuild
      · cases hbuild
      · cases hbuild
        exact get_written leaf
  · intro others hsame hoverrides
    rw [Loader.ofCalls_eq, hsame, hoverrides]

/-- Two files set the colour mode; a colour of the first file is set again before the second. -/
theorem build_ofCalls_interleaved :
    let first := "[render]\ncolor=\x22never\x22\npalette.text=\x22red\x22\n"
    let second := "[render]\ncolor=\x22always\x22\n"
    let folder := Folder.ofFiles
      [("a.toml", first.toUTF8.toList), ("b.toml", second.toUTF8.toList)]
    let calls : List Call := [.addFile "a", .override (.palette .text .blue),
      .addOptionalFile "c", .addFile "b.toml"]
    ∃ loader settings, Loader.ofCalls calls = .ok loader ∧ loader.build folder = .ok settings ∧
      settings.get .color = .color .always ∧
      settings.get (.palette .text) = .palette .text .blue ∧
      settings.get .guardLiterals = .guardLiterals false := by
  intro first second folder calls
  let state (name : String) : FileState :=
    if name = "a" then .sets [.color .never, .palette .text .red]
    else if name = "b.toml" then .sets [.color .always] else .missing
  have htable : [] ++ ["render"] ∈ Leaf.tables := by decide
  have hfirst : Finds folder "a" (state "a") := by
    have hfind : FileLayer.find? folder "a" = some ("a.toml", first.toUTF8.toList) := by
      decide +kernel
    have hparse : Toml.parse? first.toList = some (.table .header [("render", .table .header
        [("color", .text "never"), ("palette", .table .dotted [("text", .text "red")])])]) := by
      decide +kernel
    have hpalette := Writes.leaf (.palette .text .red) rfl (@Writes.nil ["render", "palette"])
    have hrender := Writes.leaf (.color .never) rfl
      (@Writes.table ["render"] _ .dotted _ _ _ _ (by decide) hpalette .nil)
    exact .sets hfind (by decide +kernel) hparse (.table htable hrender .nil)
  have hsecond : Finds folder "b.toml" (state "b.toml") := by
    have hfind : FileLayer.find? folder "b.toml" = some ("b.toml", second.toUTF8.toList) := by
      decide +kernel
    have hparse : Toml.parse? second.toList =
        some (.table .header [("render", .table .header [("color", .text "always")])]) := by
      decide +kernel
    have hrender := Writes.leaf (.color .always) rfl (@Writes.nil ["render"])
    exact .sets hfind (by decide +kernel) hparse (.table htable hrender .nil)
  have hnone : Finds folder "c" (state "c") := .missing (by decide +kernel)
  have hfiles : ∀ file ∈ filesOf calls, Finds folder file.name (state file.name) := by
    simp only [calls, filesOf, Call.file?, List.filterMap_cons, List.filterMap_nil,
      List.forall_mem_cons]
    exact ⟨hfirst, hnone, hsecond, by simp⟩
  obtain ⟨loader, hloader, herror, hwritten, -⟩ := build_ofCalls hfiles
  cases hbuild : loader.build folder with
  | error error =>
      obtain hfile | ⟨unit, hunit, hbreak⟩ := herror.1 ⟨error, hbuild⟩
      · simp [calls, filesOf, Call.file?, state] at hfile
      · have hspaces : Assignment.indentUnit "  " = .indentUnit unit := hunit
        cases hspaces
        simp [HoldsBreak] at hbreak
  | ok settings =>
      refine ⟨loader, settings, hloader, hbuild, ?_, ?_, ?_⟩
      · exact hwritten settings hbuild .color
      · exact hwritten settings hbuild (.palette .text)
      · exact hwritten settings hbuild .guardLiterals

end Settings

end PrettyMarkup
