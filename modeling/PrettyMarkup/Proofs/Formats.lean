import PrettyMarkup.Proofs.ArgumentLists
import PrettyMarkup.Proofs.Bytes
import PrettyMarkup.Proofs.JsonText
import PrettyMarkup.Proofs.Partition
import PrettyMarkup.Proofs.ReadBack
import PrettyMarkup.Proofs.Runs
import PrettyMarkup.Proofs.StyledText

/-!
# All formats show one text

The settings and the document of a run do not depend on the format.  Its tokens and its spans
partition the laid-out text, its lines render as that text, and the styled spans are the text once
their sequences are removed.  So what is written in any format tells what is written in the format
`pretty`.
-/

namespace PrettyMarkup

/-- The value of an entry of an object. -/
def Json.field? (name : String) : Json → Option Json
  | object entries => Entries.get? name entries
  | _ => none

namespace Markup

namespace Highlighted

variable (options : ReflowOptions) (raw : String)

theorem flatMap_text_tokens :
    (highlight options raw).tokens.flatMap (fun token => token.text.toList) =
      (highlight options raw).text.toList := by
  rw [tokens, tokenize, Lexeme.flatMap_text_place, join_lexemes]

theorem tokens_eq_nil_iff :
    (highlight options raw).tokens = [] ↔ (highlight options raw).text = "" := by
  have hpartition := isPartition_place (allInked_lexemes (highlight options raw).guardLiterals
    (highlight options raw).text.toList)
  rw [join_lexemes, String.ofList_toList] at hpartition
  exact hpartition.eq_nil_iff

theorem flatMap_text_spans :
    (highlight options raw).spans.flatMap (fun span => span.text.toList) =
      (highlight options raw).text.toList := by
  rw [← flatMap_text_tokens, spans, Markup.spans, List.flatMap_map]
  rfl

theorem spans_eq_nil_iff :
    (highlight options raw).spans = [] ↔ (highlight options raw).text = "" := by
  rw [← tokens_eq_nil_iff, spans, Markup.spans, List.map_eq_nil_iff]
  rfl

theorem lines_eq_nil_iff :
    (highlight options raw).document.lines = [] ↔ (highlight options raw).text = "" := by
  have hbare : ∀ line ∈ (reflow options raw).lines, Bare line.text.toList :=
    fun line => bare_of_mem_reflow
  have hrendered := @rendered_eq_nil_iff options.indentUnit.toList _ hbare
  rw [← toList_render_reflow, String.toList_eq_nil_iff] at hrendered
  exact hrendered.symm

end Highlighted

end Markup

namespace CommandLine

open Markup Settings Terminal

/-! ## Outputs -/

theorem printed_eq_nil_iff {text : String} : printed text = [] ↔ text = "" := by
  rw [printed]
  split
  · rename_i h
    simpa using h
  · rename_i h
    have hsome : text ++ "\n" ≠ "" := by simp
    rw [Text.encode_eq_nil_iff, iff_false_left hsome]
    simpa using h

theorem printed_of_ne {text : String} (h : text ≠ "") : printed text = Text.encode (text ++ "\n") :=
  if_neg (by simpa using h)

/-- A text is written as whole lines. -/
theorem wholeLines_printed (text : String) : WholeLines (printed text) := by
  intro last hlast
  by_cases hempty : text = ""
  · rw [printed_eq_nil_iff.2 hempty] at hlast
    cases hlast
  · have hend : Text.encode (text ++ "\n") = Text.bytesOf text.toList ++ [0x0A] := by
      rw [← String.ofList_toList (s := text ++ "\n"), Text.encode_ofList, String.toList_append,
        Text.bytesOf_append]
      rfl
    rw [printed_of_ne hempty, hend, List.getLast?_concat, Option.mem_some] at hlast
    exact hlast.symm

theorem printed_inj {a b : String} : printed a = printed b ↔ a = b := by
  constructor
  · intro h
    by_cases hb : b = ""
    · rw [hb, printed_eq_nil_iff.2 rfl, printed_eq_nil_iff] at h
      rw [h, hb]
    · have ha : a ≠ "" := by
        rintro rfl
        rw [printed_eq_nil_iff.2 rfl, eq_comm, printed_eq_nil_iff] at h
        exact hb h
      rw [printed_of_ne ha, printed_of_ne hb, Text.encode_inj] at h
      exact (String.append_left_inj "\n").1 h
  · rintro rfl
    rfl

/-- An output is the array of some items and of no others. -/
def PrintsArray (output : List UInt8) (items : List Json) : Prop :=
  ∀ others, output = printed (Json.list others).pretty ↔ others = items

theorem printsArray_printed (items : List Json) :
    PrintsArray (printed (Json.list items).pretty) items := by
  intro others
  rw [printed_inj, Json.pretty_inj, Json.list.injEq, eq_comm]

/-- An output is an array of items whose texts make up the output `pretty` but for its line end. -/
def ShowsTexts (pretty output : List UInt8) : Prop :=
  ∃ items, ∃ texts : List String, PrintsArray output items ∧
    items.map (Json.field? "text") = texts.map (fun text => some (.text text)) ∧
    (items = [] ↔ pretty = []) ∧
    (items ≠ [] → pretty = Text.encode (String.join texts ++ "\n"))

/-- An output is an array of lines that make up the output `pretty`, each indented by its depth. -/
def ShowsLines (unit : List Char) (pretty output : List UInt8) : Prop :=
  ∃ items, ∃ lines : List Line, PrintsArray output items ∧
    items.map (Json.field? "text") = lines.map (fun line => some (.text line.text)) ∧
    items.map (Json.field? "depth") = lines.map (fun line => some (.number line.depth)) ∧
    (items = [] ↔ pretty = []) ∧
    (items ≠ [] → pretty = Text.encode (String.ofList (['\n'].intercalate (lines.map fun line =>
      (List.replicate line.depth unit).flatten ++ line.text.toList)) ++ "\n"))

/-- What the output in a format tells of the output `pretty` in the format of that name. -/
def Shows (settings : Settings) (pretty output : List UInt8) : Format → Prop
  | .pretty => output = pretty
  | .highlight =>
    if settings.render.color = .always then
      ∃ shown plain, output = Text.encode shown ∧ pretty = Text.encode plain ∧
        (escape ∉ plain.toList → strip shown.toList = plain.toList)
    else output = pretty
  | .tokensJson | .spansJson => ShowsTexts pretty output
  | .linesJson => ShowsLines settings.reflow.indentUnit.toList pretty output

/-! ## Formats -/

section

variable (settings : Settings) (raw : String)

theorem shows_highlight :
    Shows settings (printed (highlight settings.reflow raw).text)
      (printed (render settings.render false .highlight (highlight settings.reflow raw)))
      .highlight := by
  rw [Shows]
  split
  · rename_i hcolor
    rw [render, hcolor, ColorMode.colors, if_pos rfl]
    by_cases hempty : (highlight settings.reflow raw).text = ""
    · have hspans := (Highlighted.spans_eq_nil_iff settings.reflow raw).2 hempty
      have hnone : printed "" = Text.encode "" :=
        (printed_eq_nil_iff.2 rfl).trans (Text.encode_eq_nil_iff.2 rfl).symm
      rw [hempty, (ansi_eq_empty_iff _ _).2 hspans]
      exact ⟨"", "", hnone, hnone, fun _ => rfl⟩
    · have hspans := mt (Highlighted.spans_eq_nil_iff settings.reflow raw).1 hempty
      have hansi := mt (ansi_eq_empty_iff settings.render _).1 hspans
      refine ⟨_, _, printed_of_ne hansi, printed_of_ne hempty, ?_⟩
      intro hplain
      have htexts : ∀ span ∈ (highlight settings.reflow raw).spans,
          escape ∉ span.text.toList := by
        intro span hspan hmem
        apply hplain
        rw [String.toList_append, ← Highlighted.flatMap_text_spans]
        exact List.mem_append_left _ (List.mem_flatMap.2 ⟨span, hspan, hmem⟩)
      rw [String.toList_append, String.toList_append, ansi, String.toList_ofList,
        strip_flatMap_styled settings.render htexts, Highlighted.flatMap_text_spans]
      rfl
  · rename_i hcolor
    have hplain : settings.render.color.colors false = false := by
      cases hmode : settings.render.color with
      | always => exact absurd hmode hcolor
      | _ => rfl
    rw [render, hplain]
    rfl

/-- Items are shown whose texts make up the laid-out text. -/
theorem showsTexts_of_flatMap {α : Type} {shown : String} {items : List α} {json : α → Json}
    {text : α → String} (hjson : ∀ item, (json item).field? "text" = some (.text (text item)))
    (hnil : items = [] ↔ shown = "")
    (hjoin : items.flatMap (fun item => (text item).toList) = shown.toList) :
    ShowsTexts (printed shown) (printed (Json.list (items.map json)).pretty) := by
  refine ⟨items.map json, items.map text, printsArray_printed _, ?_, ?_, ?_⟩
  · rw [List.map_map, List.map_map]
    exact List.map_congr_left fun item _ => hjson item
  · rw [List.map_eq_nil_iff, hnil, printed_eq_nil_iff]
  · intro hitems
    rw [Ne, List.map_eq_nil_iff, hnil] at hitems
    have hjoined : String.join (items.map text) = shown := by
      rw [← String.toList_inj, String.toList_join, List.flatMap_map, hjoin]
    rw [printed_of_ne hitems, hjoined]

theorem shows_tokensJson :
    Shows settings (printed (highlight settings.reflow raw).text)
      (printed (render settings.render false .tokensJson (highlight settings.reflow raw)))
      .tokensJson :=
  showsTexts_of_flatMap (fun _ => rfl) (Highlighted.tokens_eq_nil_iff settings.reflow raw)
    (Highlighted.flatMap_text_tokens settings.reflow raw)

theorem shows_spansJson :
    Shows settings (printed (highlight settings.reflow raw).text)
      (printed (render settings.render false .spansJson (highlight settings.reflow raw)))
      .spansJson :=
  showsTexts_of_flatMap (fun _ => rfl) (Highlighted.spans_eq_nil_iff settings.reflow raw)
    (Highlighted.flatMap_text_spans settings.reflow raw)

theorem shows_linesJson :
    Shows settings (printed (highlight settings.reflow raw).text)
      (printed (render settings.render false .linesJson (highlight settings.reflow raw)))
      .linesJson := by
  refine ⟨_, (highlight settings.reflow raw).document.lines, printsArray_printed _, ?_, ?_, ?_, ?_⟩
  · rw [List.map_map]
    rfl
  · rw [List.map_map]
    rfl
  · rw [List.map_eq_nil_iff, Highlighted.lines_eq_nil_iff, printed_eq_nil_iff]
  · intro hitems
    rw [Ne, List.map_eq_nil_iff, Highlighted.lines_eq_nil_iff] at hitems
    rw [printed_of_ne hitems]
    rfl

/-- What is written in a format shows what is written in the format `pretty`. -/
theorem shows_render (format : Format) :
    Shows settings (printed (highlight settings.reflow raw).text)
      (printed (render settings.render false format (highlight settings.reflow raw))) format := by
  cases format with
  | highlight => exact shows_highlight settings raw
  | pretty => rfl
  | tokensJson => exact shows_tokensJson settings raw
  | spansJson => exact shows_spansJson settings raw
  | linesJson => exact shows_linesJson settings raw

end

/-! ## Runs -/

section

variable {request : Request} {arguments : Arguments}
  (hread : Command.read request.arguments = some (.view arguments))

include hread

theorem exists_view_eq_ok (hcode : (run request).code = 0) :
    ∃ bytes, (view request arguments).1 = .ok bytes := by
  cases hview : (view request arguments).1 with
  | ok bytes => exact ⟨bytes, rfl⟩
  | error failure =>
      have hfailed := (run_of_view_eq_error hread hview).1
      exact absurd (hfailed.symm.trans hcode) failure.code_ne_zero

variable {bytes : List UInt8} (hlines : WholeLines bytes)
  (hview : (view request arguments).1 = .ok bytes)

include hlines hview

/-- A run that succeeds has written the lines that it is to write. -/
theorem output_of_code_eq_zero (hcode : (run request).code = 0) : (run request).output = bytes := by
  obtain ⟨houtput, ⟨hwrite, -⟩ | ⟨-, hone, -⟩⟩ := run_of_view_eq_ok hread hview
  · rw [houtput]
    exact Sink.write_lines hlines hwrite
  · rw [hcode] at hone
    cases hone

/-- A run whose lines are not refused succeeds. -/
theorem run_of_not_refuses (hsink : ¬request.output.Refuses bytes) :
    (run request).code = 0 ∧ (run request).output = bytes := by
  rcases (run_of_view_eq_ok hread hview).2 with ⟨-, hcode, -⟩ | ⟨hrefuses, -⟩
  · exact ⟨hcode, output_of_code_eq_zero hread hlines hview hcode⟩
  · exact absurd hrefuses hsink

end

theorem presented_eq_printed {request : Request} {arguments : Arguments}
    (hraw : arguments.raw = false) (hterminal : request.terminal = false) (settings : Settings)
    (bytes : List UInt8) :
    (presented request arguments settings bytes).1 =
      printed (render settings.render false (arguments.format.getD .highlight)
        (highlight settings.reflow (Text.decodeLossy bytes))) := by
  rw [presented, hraw, hterminal]
  rfl

/-- All formats show one text: what a run writes of a document tells what is written of it in the
format `pretty`, if no terminal shows it.  Some list of arguments asks for that format and for all
else the same, and all such lists are answered alike on every output that does not refuse it. -/
theorem run_shows {request : Request} {arguments : Arguments}
    (hread : Command.read request.arguments = some (.view arguments))
    (hraw : arguments.raw = false) (hterminal : request.terminal = false)
    (hcode : (run request).code = 0) :
    ∃ settings plain, settingsOf request.folder arguments = .ok settings ∧
      (∃ list, Command.read list = some (.view { arguments with format := some .pretty })) ∧
      (∀ list output, Command.read list = some (.view { arguments with format := some .pretty }) →
        ¬output.Refuses plain →
          (run { request with arguments := list, output }).code = 0 ∧
            (run { request with arguments := list, output }).output = plain) ∧
      Shows settings plain (run request).output (arguments.format.getD .highlight) := by
  obtain ⟨bytes, hview⟩ := exists_view_eq_ok hread hcode
  obtain ⟨settings, document, hsettings, hdocument, hbytes⟩ := view_eq_ok_iff.1 hview
  rw [presented_eq_printed hraw hterminal] at hbytes
  subst hbytes
  have hplain : (view request { arguments with format := some .pretty }).1 =
      .ok (printed (highlight settings.reflow (Text.decodeLossy document)).text) := by
    apply view_eq_ok_iff.2
    refine ⟨settings, document, hsettings, hdocument, ?_⟩
    have hpresented := @presented_eq_printed request { arguments with format := some .pretty } hraw
      hterminal settings document
    exact hpresented
  refine ⟨settings, printed (highlight settings.reflow (Text.decodeLossy document)).text, hsettings,
    exists_read_format hread _, ?_, ?_⟩
  · intro list output hlist hsink
    exact @run_of_not_refuses { request with arguments := list, output } _ hlist _
      (wholeLines_printed _) hplain hsink
  · rw [output_of_code_eq_zero hread (wholeLines_printed _) hview hcode]
    exact shows_render settings (Text.decodeLossy document) _

/-- The spans of a tag, under the standard settings. -/
theorem run_shows_spans :
    let request : Request := {
      arguments := ["-f", "spans-json"]
      input := [0x3C, 0x61, 0x3E]
      folder := Folder.ofFiles []
      logSetting := none
      terminal := false }
    ∃ plain, (run { request with arguments := ["-f", "pretty"] }).output = plain ∧
      ShowsTexts plain (run request).output := by
  intro request
  have hread : Command.read request.arguments =
      some (.view { Arguments.none with format := some .spansJson }) := by decide
  have hpretty : Command.read ["-f", "pretty"] =
      some (.view { Arguments.none with format := some .pretty }) := by decide
  have hfile : FileLayer.find? request.folder localSettings = none := by decide +kernel
  have hsink : ∀ bytes, ¬request.output.Refuses bytes := by
    rintro bytes ⟨reason, hreason⟩
    cases hreason
  have hview : (view request { Arguments.none with format := some .spansJson }).1 = .ok _ :=
    view_eq_ok_iff.2 ⟨.standard, _, settingsOf_of_find_eq_none hfile rfl rfl, rfl, rfl⟩
  rw [presented_eq_printed rfl rfl] at hview
  have hcode : (run request).code = 0 :=
    (run_of_not_refuses hread (wholeLines_printed _) hview (hsink _)).1
  obtain ⟨settings, plain, -, -, hplain, hshows⟩ := run_shows hread rfl rfl hcode
  exact ⟨plain, (hplain _ request.output hpretty (hsink plain)).2, hshows⟩

end CommandLine

end PrettyMarkup
