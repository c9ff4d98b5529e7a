import Mathlib.Data.List.Induction
import PrettyMarkup.Markup.TagEnd

/-!
# Quoted values in a tag body

Which characters of a tag body stand in a quoted value is said twice.  A reader remembers the quote
that is open (`QuoteState`).  The grammar says how a body is made up of values and of characters
outside them: a quote right behind an equals sign opens a value, and the same quote closes it.
Both say the same of every front of a body (`outside_iff`, `endsInValue_iff`).
-/

namespace PrettyMarkup

namespace Markup

/-- A quote right behind an equals sign opens a value. -/
def Opens (front : List Char) (quote : Char) : Prop :=
  isQuote quote = true ∧ front.getLast? = some '='

instance (front : List Char) (quote : Char) : Decidable (Opens front quote) :=
  inferInstanceAs (Decidable (_ ∧ _))

/-- Texts of whole values and of characters that open none: they end outside a value. -/
inductive Outside : List Char → Prop
  | nil : Outside []
  | char {front : List Char} {c : Char} (h : Outside front) (hc : ¬Opens front c) :
      Outside (front ++ [c])
  | value {front inside : List Char} {quote : Char} (h : Outside front)
      (hopen : Opens front quote) (hinside : quote ∉ inside) :
      Outside (front ++ quote :: (inside ++ [quote]))

/-- A text that ends in a value, with the quote that opens it. -/
def EndsInValue (quote : Char) (text : List Char) : Prop :=
  ∃ front inside, text = front ++ quote :: inside ∧ Outside front ∧ Opens front quote ∧
    quote ∉ inside

/-! ## What a reader remembers -/

namespace QuoteState

theorem after_append (state : QuoteState) (front rest : List Char) :
    state.after (front ++ rest) = (state.after front).after rest :=
  List.foldl_append

theorem after_concat (state : QuoteState) (text : List Char) (c : Char) :
    state.after (text ++ [c]) = (state.after text).next c :=
  after_append state text [c]

theorem afterEquals_after (text : List Char) :
    (outside.after text).afterEquals = (text.getLast? == some '=') := by
  rcases List.eq_nil_or_concat text with rfl | ⟨front, c, rfl⟩
  · rfl
  · rw [List.concat_eq_append, after_concat, List.getLast?_concat]
    rfl

theorem opened_next_of_none {state : QuoteState} (h : state.opened = none) (c : Char) :
    (state.next c).opened = if isQuote c && state.afterEquals then some c else none := by
  rw [next, h]

theorem opened_next_of_some {state : QuoteState} {quote : Char} (h : state.opened = some quote)
    (c : Char) : (state.next c).opened = if c == quote then none else some quote := by
  rw [next, h]

/-- Outside a value a character opens one, or the text goes on outside. -/
theorem opened_concat_of_none {text : List Char} (h : (outside.after text).opened = none)
    (c : Char) :
    (outside.after (text ++ [c])).opened = if Opens text c then some c else none := by
  rw [after_concat, opened_next_of_none h, afterEquals_after]
  exact if_congr (by simp [Opens]) rfl rfl

/-- In a value its quote closes it, and any other character goes on in it. -/
theorem opened_concat_of_some {text : List Char} {quote : Char}
    (h : (outside.after text).opened = some quote) (c : Char) :
    (outside.after (text ++ [c])).opened = if c = quote then none else some quote := by
  rw [after_concat, opened_next_of_some h]
  simp

theorem opened_append_of_some {front inside : List Char} {quote : Char}
    (h : (outside.after front).opened = some quote) (hinside : quote ∉ inside) :
    (outside.after (front ++ inside)).opened = some quote := by
  induction inside using List.reverseRecOn with
  | nil => rwa [List.append_nil]
  | append_singleton inside c ih =>
      rw [List.mem_append, not_or, List.mem_singleton] at hinside
      rw [← List.append_assoc, opened_concat_of_some (ih hinside.1), if_neg (Ne.symm hinside.2)]

end QuoteState

/-! ## The reader and the grammar -/

open QuoteState

theorem Outside.opened_eq {text : List Char} (h : Outside text) :
    (outside.after text).opened = none := by
  induction h with
  | nil => rfl
  | char _ hc ih => rw [opened_concat_of_none ih, if_neg hc]
  | @value front inside quote _ hopen hinside ih =>
      have hquote : (outside.after (front ++ [quote])).opened = some quote := by
        rw [opened_concat_of_none ih, if_pos hopen]
      have hcat : front ++ quote :: (inside ++ [quote]) =
          front ++ [quote] ++ inside ++ [quote] := by simp
      rw [hcat, opened_concat_of_some (opened_append_of_some hquote hinside), if_pos rfl]

theorem EndsInValue.opened_eq {text : List Char} {quote : Char} (h : EndsInValue quote text) :
    (outside.after text).opened = some quote := by
  obtain ⟨front, inside, rfl, hfront, hopen, hinside⟩ := h
  have hquote : (outside.after (front ++ [quote])).opened = some quote := by
    rw [opened_concat_of_none hfront.opened_eq, if_pos hopen]
  have hcat : front ++ quote :: inside = front ++ [quote] ++ inside := by simp
  rw [hcat]
  exact opened_append_of_some hquote hinside

/-- Every text is one that the grammar accounts for, with the quote that the reader remembers. -/
theorem outside_and_endsInValue_of_opened (text : List Char) :
    ((outside.after text).opened = none → Outside text) ∧
      ∀ quote, (outside.after text).opened = some quote → EndsInValue quote text := by
  induction text using List.reverseRecOn with
  | nil => exact ⟨fun _ => .nil, fun quote h => by simp [outside] at h⟩
  | append_singleton text c ih =>
      cases hopened : (outside.after text).opened with
      | none =>
          have htext : Outside text := ih.1 hopened
          rw [opened_concat_of_none hopened]
          by_cases hc : Opens text c
          · simp only [if_pos hc, reduceCtorEq, false_implies, Option.some.injEq, true_and]
            rintro quote rfl
            exact ⟨text, [], rfl, htext, hc, List.not_mem_nil⟩
          · simp only [if_neg hc, reduceCtorEq, false_implies, implies_true, and_true]
            exact fun _ => .char htext hc
      | some opened =>
          obtain ⟨front, inside, rfl, hfront, hopen, hinside⟩ := ih.2 opened hopened
          rw [opened_concat_of_some hopened, List.append_assoc, List.cons_append]
          by_cases hc : c = opened
          · subst hc
            simp only [if_true, reduceCtorEq, false_implies, implies_true, and_true]
            exact fun _ => .value hfront hopen hinside
          · simp only [if_neg hc, reduceCtorEq, false_implies, Option.some.injEq, true_and]
            rintro quote rfl
            refine ⟨front, inside ++ [c], rfl, hfront, hopen, ?_⟩
            simp [hinside, Ne.symm hc]

theorem outside_iff {text : List Char} :
    Outside text ↔ (outside.after text).opened = none :=
  ⟨Outside.opened_eq, (outside_and_endsInValue_of_opened text).1⟩

theorem endsInValue_iff {text : List Char} {quote : Char} :
    EndsInValue quote text ↔ (outside.after text).opened = some quote :=
  ⟨EndsInValue.opened_eq, (outside_and_endsInValue_of_opened text).2 quote⟩

end Markup

end PrettyMarkup
