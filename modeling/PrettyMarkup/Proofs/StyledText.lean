import PrettyMarkup.Terminal.Style

/-!
# Styled text without its sequences

A sequence has no letter but its last character, so removing sequences removes just these; and a
text without the escape character is left as it is.  No other text is: what sequences were removed
from holds no escape character.
-/

namespace PrettyMarkup

namespace Terminal

open Markup

theorem strip_append {text : List Char} (h : escape ∉ text) (rest : List Char) :
    strip (text ++ rest) = text ++ strip rest := by
  induction text with
  | nil => rfl
  | cons c text ih =>
      obtain ⟨hc, htext⟩ := not_or.1 (mt List.mem_cons.2 h)
      have hstep : strip (c :: (text ++ rest)) = c :: strip (text ++ rest) := by
        simp [strip, stripFrom, Ne.symm hc]
      rw [List.cons_append, hstep, ih htext, List.cons_append]

/-- A sequence goes on until its first letter. -/
theorem stripFrom_codes {codes : List Char} (h : ∀ c ∈ codes, c.isAlpha = false) {letter : Char}
    (hletter : letter.isAlpha = true) (rest : List Char) :
    stripFrom true (codes ++ letter :: rest) = strip rest := by
  induction codes with
  | nil => simp [stripFrom, hletter, strip]
  | cons c codes ih =>
      obtain ⟨hc, hcodes⟩ := List.forall_mem_cons.1 h
      rw [List.cons_append, stripFrom, if_pos rfl, hc]
      exact ih hcodes

theorem strip_select {codes : String} (h : ∀ c ∈ codes.toList, c.isAlpha = false)
    (rest : List Char) : strip (select codes ++ rest) = strip rest := by
  have hbracket : ∀ c ∈ '[' :: codes.toList, c.isAlpha = false :=
    List.forall_mem_cons.2 ⟨by decide, h⟩
  have hcodes := @stripFrom_codes _ hbracket 'm' (by decide) rest
  simpa [strip, stripFrom, select] using hcodes

theorem strip_foreground (color : Color) (rest : List Char) :
    strip (foreground color ++ rest) = strip rest := by
  cases color <;> exact strip_select (by decide +kernel) rest

/-- A styled span is its text between sequences. -/
theorem strip_styled (render : RenderSettings) {span : Span} (h : escape ∉ span.text.toList)
    (rest : List Char) :
    strip (styled render span ++ rest) = span.text.toList ++ strip rest := by
  have hoption : ∀ (b : Bool) (codes : String) (rest : List Char),
      (∀ c ∈ codes.toList, c.isAlpha = false) →
        strip ((if b then select codes else []) ++ rest) = strip rest := by
    intro b codes rest hcodes
    cases b with
    | false => rfl
    | true => exact strip_select hcodes rest
  have hend : ∀ b : Bool, strip (select (if b then "0" else "39") ++ rest) = strip rest := by
    intro b
    cases b <;> exact strip_select (by decide) rest
  rw [styled]
  simp only [List.append_assoc]
  rw [strip_foreground, hoption _ _ _ (by decide), hoption _ _ _ (by decide), strip_append h, hend]

/-- Spans without the escape character are their texts with sequences between them. -/
theorem strip_flatMap_styled (render : RenderSettings) {spans : List Span}
    (h : ∀ span ∈ spans, escape ∉ span.text.toList) (rest : List Char) :
    strip (spans.flatMap (styled render) ++ rest) =
      spans.flatMap (fun span => span.text.toList) ++ strip rest := by
  induction spans with
  | nil => rfl
  | cons span spans ih =>
      obtain ⟨hspan, hspans⟩ := List.forall_mem_cons.1 h
      rw [List.flatMap_cons, List.append_assoc, strip_styled render hspan, ih hspans,
        List.flatMap_cons, List.append_assoc]

/-- Nothing that starts a sequence is left. -/
theorem escape_not_mem_stripFrom (within : Bool) (text : List Char) :
    escape ∉ stripFrom within text := by
  induction text generalizing within with
  | nil => exact List.not_mem_nil
  | cons c text ih =>
      rw [stripFrom]
      split
      · exact ih _
      · split
        · exact ih true
        · rename_i hc
          have hne : escape ≠ c := fun heq => hc (by simp [heq])
          exact List.not_mem_cons_of_ne_of_not_mem hne (ih false)

/-- Styled spans without their sequences are the texts of the spans if and only if no text holds an
escape character: one that does loses it, whichever sequences are put around it. -/
theorem strip_ansi_eq_iff (render : RenderSettings) (spans : List Span) :
    strip (ansi render spans).toList = spans.flatMap (fun span => span.text.toList) ↔
      ∀ span ∈ spans, escape ∉ span.text.toList := by
  rw [ansi, String.toList_ofList]
  constructor
  · intro hsame span hspan hmem
    apply escape_not_mem_stripFrom false (spans.flatMap (styled render))
    have htexts : escape ∈ spans.flatMap fun span => span.text.toList :=
      List.mem_flatMap.2 ⟨span, hspan, hmem⟩
    rwa [← hsame] at htexts
  · intro h
    simpa using strip_flatMap_styled render h []

/-- Every span makes a sequence. -/
theorem ansi_eq_empty_iff (render : RenderSettings) (spans : List Span) :
    ansi render spans = "" ↔ spans = [] := by
  rw [ansi, String.ofList_eq_empty_iff, List.flatMap_eq_nil_iff, List.eq_nil_iff_forall_not_mem]
  have hforeground : ∀ color, foreground color ≠ [] := by
    intro color
    cases color <;> simp [foreground, Color.number?, select]
  simp [styled, hforeground]

end Terminal

end PrettyMarkup
