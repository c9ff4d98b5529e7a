import Mathlib.Data.List.Infix
import PrettyMarkup.Json

/-!
# A JSON text is the text of one value

No value's text, nor any escaped character's, is the start of another's: a text ends at its quote, a
number in front of what is no digit, and a list or an object at its bracket.  So a value is known
from its text (`write_append_inj`).
-/

namespace PrettyMarkup

namespace Json

/-! ## Texts -/

/-- The characters that are not written as they stand. -/
def escaped : List Char := '\x22' :: '\\' :: (List.range 0x20).map Char.ofNat

theorem escapeChar_of_not_mem {c : Char} (h : c ∉ escaped) : escapeChar c = [c] := by
  have hcontrol : ¬c.toNat < 0x20 := by
    intro hlt
    apply h
    have hmem : Char.ofNat c.toNat ∈ (List.range 0x20).map Char.ofNat :=
      List.mem_map_of_mem (List.mem_range.2 hlt)
    rw [Char.ofNat_toNat] at hmem
    exact List.mem_cons_of_mem _ (List.mem_cons_of_mem _ hmem)
  have hother : ∀ d ∈ escaped, c ≠ d := fun d hd hcd => h (hcd ▸ hd)
  simp [escapeChar, hother '\x22' (by decide), hother '\\' (by decide), hother '\x08' (by decide),
    hother '\x0C' (by decide), hother '\n' (by decide), hother '\r' (by decide),
    hother '\t' (by decide), hcontrol]

theorem escapeChar_of_mem {c : Char} (h : c ∈ escaped) :
    ∃ d rest, escapeChar c = '\\' :: d :: rest := by
  have hall : escaped.all (fun c =>
      (escapeChar c).head? = some '\\' ∧ 2 ≤ (escapeChar c).length) = true := by
    decide +kernel
  obtain ⟨hhead, hlength⟩ := of_decide_eq_true (List.all_eq_true.1 hall c h)
  obtain ⟨rest, hrest⟩ := List.head?_eq_some_iff.1 hhead
  rw [hrest] at hlength
  cases rest with
  | nil => simp at hlength
  | cons d rest => exact ⟨d, rest, hrest⟩

/-- An escaped character is not the start of another. -/
theorem eq_of_escapeChar_isPrefix {c c' : Char} (h : escapeChar c <+: escapeChar c') : c = c' := by
  have hall : escaped.all (fun c => escaped.all fun c' =>
      escapeChar c <+: escapeChar c' → c = c') = true := by
    decide +kernel
  by_cases hc : c ∈ escaped
  · by_cases hc' : c' ∈ escaped
    · exact of_decide_eq_true (List.all_eq_true.1 (List.all_eq_true.1 hall c hc) c' hc') h
    · obtain ⟨d, rest, hcode⟩ := escapeChar_of_mem hc
      rw [hcode, escapeChar_of_not_mem hc'] at h
      simp at h
  · rw [escapeChar_of_not_mem hc] at h
    by_cases hc' : c' ∈ escaped
    · obtain ⟨d, rest, hcode⟩ := escapeChar_of_mem hc'
      rw [hcode, List.cons_prefix_cons] at h
      exact absurd (h.1 ▸ by decide) hc
    · rw [escapeChar_of_not_mem hc', List.cons_prefix_cons] at h
      exact h.1

theorem escapeChar_append_inj {c c' : Char} {r r' : List Char}
    (h : escapeChar c ++ r = escapeChar c' ++ r') : c = c' ∧ r = r' := by
  have hc : c = c' := by
    have hprefix : escapeChar c <+: escapeChar c' ++ r' := ⟨r, h⟩
    rcases List.prefix_or_prefix_of_prefix hprefix (List.prefix_append _ r') with h | h
    · exact eq_of_escapeChar_isPrefix h
    · exact (eq_of_escapeChar_isPrefix h).symm
  subst hc
  exact ⟨rfl, List.append_cancel_left h⟩

/-- No quote stands among escaped characters where one begins. -/
theorem escapeChar_append_ne (c : Char) (r r' : List Char) :
    escapeChar c ++ r ≠ '\x22' :: r' := by
  by_cases hc : c ∈ escaped
  · obtain ⟨d, rest, hcode⟩ := escapeChar_of_mem hc
    simp [hcode]
  · have hne : c ≠ '\x22' := fun h => hc (h ▸ by decide)
    simp [escapeChar_of_not_mem hc, hne]

theorem flatMap_escapeChar_append_inj {chars chars' r r' : List Char}
    (h : chars.flatMap escapeChar ++ '\x22' :: r = chars'.flatMap escapeChar ++ '\x22' :: r') :
    chars = chars' ∧ r = r' := by
  induction chars generalizing chars' with
  | nil =>
      cases chars' with
      | nil => exact ⟨rfl, (List.cons.inj h).2⟩
      | cons c' chars' =>
          rw [List.flatMap_cons, List.append_assoc] at h
          exact absurd h.symm (escapeChar_append_ne c' _ _)
  | cons c chars ih =>
      rw [List.flatMap_cons, List.append_assoc] at h
      cases chars' with
      | nil => exact absurd h (escapeChar_append_ne c _ _)
      | cons c' chars' =>
          rw [List.flatMap_cons, List.append_assoc] at h
          obtain ⟨rfl, hrest⟩ := escapeChar_append_inj h
          obtain ⟨rfl, hr⟩ := ih hrest
          exact ⟨rfl, hr⟩

/-- A text in quotes is read back. -/
theorem writeText_append_inj {s s' : String} {r r' : List Char}
    (h : writeText s ++ r = writeText s' ++ r') : s = s' ∧ r = r' := by
  simp only [writeText, List.append_assoc, List.singleton_append] at h
  obtain ⟨hchars, hr⟩ := flatMap_escapeChar_append_inj (List.cons.inj h).2
  exact ⟨String.toList_inj.1 hchars, hr⟩

/-! ## Numbers -/

/-- A text in front of which a number ends. -/
def EndsNumber (text : List Char) : Prop := ∀ c ∈ text.head?, c.isDigit = false

theorem toDigits_append_inj {n n' : Nat} {r r' : List Char} (hr : EndsNumber r)
    (hr' : EndsNumber r') (h : Nat.toDigits 10 n ++ r = Nat.toDigits 10 n' ++ r') :
    n = n' ∧ r = r' := by
  have hcut : ∀ (n : Nat) (r : List Char), EndsNumber r →
      (Nat.toDigits 10 n ++ r).takeWhile Char.isDigit = Nat.toDigits 10 n := by
    intro n r hr
    rw [List.takeWhile_append_of_pos fun c => Nat.isDigit_of_mem_toDigits (by omega) (by omega)]
    cases r with
    | nil => simp
    | cons c r =>
        have hc : c.isDigit = false := hr c rfl
        rw [List.takeWhile_cons_of_neg (by simp [hc]), List.append_nil]
  have hdigits : Nat.toDigits 10 n = Nat.toDigits 10 n' := by
    rw [← hcut n r hr, h, hcut n' r' hr']
  rw [hdigits] at h
  refine ⟨?_, List.append_cancel_left h⟩
  rw [← Nat.ofDigitChars_toDigits (b := 10) (n := n) (by omega) (by omega), hdigits,
    Nat.ofDigitChars_toDigits (by omega) (by omega)]

/-! ## Values -/

theorem endsNumber_writeItems (level level' : Nat) (items : List Json) (r : List Char) :
    EndsNumber (writeItems level items ++ (newLine level' ++ r)) := by
  cases items with
  | nil => simp [EndsNumber, writeItems, newLine]
  | cons item items => simp [EndsNumber, writeItems]

theorem endsNumber_writeEntries (level level' : Nat) (entries : List (String × Json))
    (r : List Char) : EndsNumber (writeEntries level entries ++ (newLine level' ++ r)) := by
  cases entries with
  | nil => simp [EndsNumber, writeEntries, newLine]
  | cons entry entries => simp [EndsNumber, writeEntries]

/-- What a value is made of. -/
inductive Form where
  | text
  | number
  | list
  | object

def form : Json → Form
  | .text _ => .text
  | .number _ => .number
  | .list _ => .list
  | .object _ => .object

/-- Whether a text of a form starts with a character. -/
def Form.startsWith : Form → Char → Bool
  | text, c => c == '\x22'
  | number, c => c.isDigit
  | list, c => c == '['
  | object, c => c == '\x7b'

theorem Form.eq_of_startsWith {a b : Form} {c : Char} (ha : a.startsWith c = true)
    (hb : b.startsWith c = true) : a = b := by
  cases a <;> cases b <;> simp_all [Form.startsWith]

theorem exists_write_eq_cons (level : Nat) (json : Json) :
    ∃ c rest, write level json = c :: rest ∧ json.form.startsWith c = true := by
  cases json with
  | text s => exact ⟨_, _, rfl, rfl⟩
  | number n =>
      obtain ⟨c, rest, hdigits⟩ := List.exists_cons_of_ne_nil (@Nat.toDigits_ne_nil n 10)
      refine ⟨c, rest, by rw [write, hdigits], ?_⟩
      have hmem : c ∈ Nat.toDigits 10 n := by simp [hdigits]
      exact Nat.isDigit_of_mem_toDigits (by omega) (by omega) hmem
  | list items => cases items <;> exact ⟨_, _, rfl, rfl⟩
  | object entries => cases entries <;> exact ⟨_, _, rfl, rfl⟩

/-- The form of a value is known from the start of its text. -/
theorem form_eq_of_write {json json' : Json} {level : Nat} {r r' : List Char}
    (h : write level json ++ r = write level json' ++ r') : json.form = json'.form := by
  obtain ⟨c, rest, hwrite, hc⟩ := exists_write_eq_cons level json
  obtain ⟨c', rest', hwrite', hc'⟩ := exists_write_eq_cons level json'
  rw [hwrite, hwrite', List.cons_append, List.cons_append] at h
  rw [(List.cons.inj h).1] at hc
  exact Form.eq_of_startsWith hc hc'

mutual

/-- A value is read back from its text, whatever stands behind it. -/
theorem write_append_inj (json json' : Json) (level : Nat) {r r' : List Char} (hr : EndsNumber r)
    (hr' : EndsNumber r') (h : write level json ++ r = write level json' ++ r') :
    json = json' ∧ r = r' := by
  -- only values of the same form are left to compare: their texts start differently else
  have hform := form_eq_of_write h
  match json, json' with
  | text s, text s' =>
      obtain ⟨rfl, hrest⟩ := writeText_append_inj h
      exact ⟨rfl, hrest⟩
  | number n, number n' =>
      obtain ⟨rfl, hrest⟩ := toDigits_append_inj hr hr' h
      exact ⟨rfl, hrest⟩
  | list [], list [] => exact ⟨rfl, by simpa [write] using h⟩
  | list [], list (_ :: _) => simp [write, newLine] at h
  | list (_ :: _), list [] => simp [write, newLine] at h
  | list (first :: rest), list (first' :: rest') =>
      simp only [write, List.append_assoc, List.cons_append, List.nil_append, List.cons.injEq,
        true_and, List.append_cancel_left_eq] at h
      obtain ⟨rfl, hitems⟩ := write_append_inj first first' (level + 1)
        (endsNumber_writeItems _ _ rest _) (endsNumber_writeItems _ _ rest' _) h
      obtain ⟨rfl, hclose⟩ := writeItems_append_inj rest rest' (level + 1) level hitems
      exact ⟨rfl, (List.cons.inj hclose).2⟩
  | object [], object [] => exact ⟨rfl, by simpa [write] using h⟩
  | object [], object (_ :: _) => simp [write, newLine] at h
  | object (_ :: _), object [] => simp [write, newLine] at h
  | object ((name, first) :: rest), object ((name', first') :: rest') =>
      simp only [write, List.append_assoc, List.cons_append, List.nil_append, List.cons.injEq,
        true_and, List.append_cancel_left_eq] at h
      obtain ⟨rfl, hvalue⟩ := writeText_append_inj h
      simp only [List.cons.injEq, true_and] at hvalue
      obtain ⟨rfl, hentries⟩ := write_append_inj first first' (level + 1)
        (endsNumber_writeEntries _ _ rest _) (endsNumber_writeEntries _ _ rest' _) hvalue
      obtain ⟨rfl, hclose⟩ := writeEntries_append_inj rest rest' (level + 1) level hentries
      exact ⟨rfl, (List.cons.inj hclose).2⟩

/-- The items behind the first are read back from their texts. -/
theorem writeItems_append_inj (items items' : List Json) (level level' : Nat) {r r' : List Char}
    (h : writeItems level items ++ (newLine level' ++ r) =
      writeItems level items' ++ (newLine level' ++ r')) : items = items' ∧ r = r' := by
  match items, items' with
  | [], [] => exact ⟨rfl, by simpa [writeItems] using h⟩
  | [], _ :: _ => simp [writeItems, newLine] at h
  | _ :: _, [] => simp [writeItems, newLine] at h
  | item :: items, item' :: items' =>
      simp only [writeItems, List.append_assoc, List.cons_append, List.nil_append, List.cons.injEq,
        true_and, List.append_cancel_left_eq] at h
      obtain ⟨rfl, hitems⟩ := write_append_inj item item' level
        (endsNumber_writeItems _ _ items _) (endsNumber_writeItems _ _ items' _) h
      obtain ⟨rfl, hr⟩ := writeItems_append_inj items items' level level' hitems
      exact ⟨rfl, hr⟩

/-- The entries behind the first are read back from their texts. -/
theorem writeEntries_append_inj (entries entries' : List (String × Json)) (level level' : Nat)
    {r r' : List Char} (h : writeEntries level entries ++ (newLine level' ++ r) =
      writeEntries level entries' ++ (newLine level' ++ r')) : entries = entries' ∧ r = r' := by
  match entries, entries' with
  | [], [] => exact ⟨rfl, by simpa [writeEntries] using h⟩
  | [], _ :: _ => simp [writeEntries, newLine] at h
  | _ :: _, [] => simp [writeEntries, newLine] at h
  | (name, value) :: entries, (name', value') :: entries' =>
      simp only [writeEntries, List.append_assoc, List.cons_append, List.nil_append,
        List.cons.injEq, true_and, List.append_cancel_left_eq] at h
      obtain ⟨rfl, hvalue⟩ := writeText_append_inj h
      simp only [List.cons.injEq, true_and] at hvalue
      obtain ⟨rfl, hentries⟩ := write_append_inj value value' level
        (endsNumber_writeEntries _ _ entries _) (endsNumber_writeEntries _ _ entries' _) hvalue
      obtain ⟨rfl, hr⟩ := writeEntries_append_inj entries entries' level level' hentries
      exact ⟨rfl, hr⟩

end

/-- Values that are written alike are the same. -/
theorem pretty_inj {json json' : Json} : json.pretty = json'.pretty ↔ json = json' := by
  constructor
  · intro h
    rw [pretty, pretty, String.ofList_inj] at h
    have hend : EndsNumber [] := by simp [EndsNumber]
    exact (write_append_inj json json' 0 hend hend (by rw [h])).1
  · rintro rfl
    rfl

end Json

end PrettyMarkup
