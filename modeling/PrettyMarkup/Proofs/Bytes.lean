import Mathlib.Data.List.Basic
import PrettyMarkup.Text.ByteSize
import PrettyMarkup.Text.Utf8

/-!
# Bytes of characters

A character of one byte is known from that byte wherever it stands: no other character has it among
its own, first or behind the first.  So a search for such a byte finds such a character.
-/

namespace PrettyMarkup

namespace Text

/-- The bytes of a text, character by character. -/
def bytesOf (text : List Char) : List UInt8 := text.flatMap String.utf8EncodeChar

@[simp] theorem bytesOf_nil : bytesOf [] = [] := rfl

@[simp] theorem bytesOf_cons (c : Char) (text : List Char) :
    bytesOf (c :: text) = String.utf8EncodeChar c ++ bytesOf text := rfl

@[simp] theorem bytesOf_append (s t : List Char) : bytesOf (s ++ t) = bytesOf s ++ bytesOf t :=
  List.flatMap_append

@[simp] theorem length_bytesOf (text : List Char) : (bytesOf text).length = byteSize text := by
  induction text with
  | nil => rfl
  | cons c text ih =>
      rw [bytesOf_cons, List.length_append, String.length_utf8EncodeChar, ih, byteSize_cons]

theorem encode_ofList (text : List Char) : encode (String.ofList text) = bytesOf text := by
  rw [encode, toList_byteArray, String.toUTF8_eq_toByteArray, String.toByteArray_ofList,
    List.utf8Encode, List.toList_data_toByteArray]
  rfl

/-! ## Characters of one byte -/

section OneByte

variable {c x : Char}

theorem toNat_lt_of_utf8Size (h : c.utf8Size = 1) : c.toNat < 0x80 := by
  have hle : c.val ≤ 0x7f := Char.utf8Size_eq_one_iff.1 h
  exact Nat.lt_succ_of_le (UInt32.le_iff_toNat_le.1 hle)

theorem toNat_toUInt8 (h : c.utf8Size = 1) : c.toUInt8.toNat = c.toNat := by
  have hlt := toNat_lt_of_utf8Size h
  exact Nat.mod_eq_of_lt (Nat.lt_trans hlt (by decide))

theorem toUInt8_inj (hc : c.utf8Size = 1) (hx : x.utf8Size = 1) :
    c.toUInt8 = x.toUInt8 ↔ c = x := by
  rw [← UInt8.toNat_inj, toNat_toUInt8 hc, toNat_toUInt8 hx, Char.toNat_inj]

/-- No byte of a longer character is that of a character of one byte. -/
theorem le_of_mem_utf8EncodeChar (h : c.utf8Size ≠ 1) {byte : UInt8}
    (hbyte : byte ∈ String.utf8EncodeChar c) : 0x80 ≤ byte.toNat := by
  have hlong : ¬c.val.toNat ≤ 0x7f := by
    intro hle
    exact h (Char.utf8Size_eq_one_iff.2 (UInt32.le_iff_toNat_le.2 hle))
  rw [String.utf8EncodeChar] at hbyte
  simp only [if_neg hlong] at hbyte
  split at hbyte
  · simp only [List.mem_cons, List.not_mem_nil, or_false] at hbyte
    rcases hbyte with rfl | rfl <;> rw [UInt8.toNat_ofNat'] <;> omega
  · split at hbyte
    · simp only [List.mem_cons, List.not_mem_nil, or_false] at hbyte
      rcases hbyte with rfl | rfl | rfl <;> rw [UInt8.toNat_ofNat'] <;> omega
    · simp only [List.mem_cons, List.not_mem_nil, or_false] at hbyte
      rcases hbyte with rfl | rfl | rfl | rfl <;> rw [UInt8.toNat_ofNat'] <;> omega

/-- The first byte of a character and those behind it, told apart from a character of one byte. -/
theorem exists_utf8EncodeChar (c : Char) : ∃ first more, String.utf8EncodeChar c = first :: more ∧
    ∀ x : Char, x.utf8Size = 1 → (first = x.toUInt8 ↔ c = x) ∧ x.toUInt8 ∉ more := by
  by_cases hc : c.utf8Size = 1
  · refine ⟨c.toUInt8, [], String.utf8EncodeChar_eq_singleton hc, fun x hx => ?_⟩
    exact ⟨toUInt8_inj hc hx, List.not_mem_nil⟩
  · obtain ⟨first, more, hbytes⟩ :=
      List.exists_cons_of_ne_nil (@String.utf8EncodeChar_ne_nil c)
    have hhigh : ∀ byte ∈ first :: more, 0x80 ≤ byte.toNat := by
      rw [← hbytes]
      exact fun byte => le_of_mem_utf8EncodeChar hc
    have hne : ∀ x : Char, x.utf8Size = 1 → x.toUInt8 ∉ first :: more := by
      intro x hx hmem
      have hle := hhigh _ hmem
      rw [toNat_toUInt8 hx] at hle
      exact Nat.not_lt.2 hle (toNat_lt_of_utf8Size hx)
    refine ⟨first, more, hbytes, fun x hx => ?_⟩
    have hx' := hne x hx
    rw [List.mem_cons, not_or] at hx'
    refine ⟨iff_of_false (Ne.symm hx'.1) ?_, hx'.2⟩
    rintro rfl
    exact hc hx

/-- A text starts with a character of one byte where its bytes start with that byte. -/
theorem head?_bytesOf (hx : x.utf8Size = 1) (text : List Char) :
    (bytesOf text).head? = some x.toUInt8 ↔ text.head? = some x := by
  cases text with
  | nil => simp
  | cons c text =>
      obtain ⟨first, more, hbytes, hfirst⟩ := exists_utf8EncodeChar c
      rw [bytesOf_cons, hbytes, List.cons_append, List.head?_cons, List.head?_cons,
        Option.some_inj, Option.some_inj, (hfirst x hx).1]

theorem getLast?_bytesOf (hx : x.utf8Size = 1) (text : List Char) :
    (bytesOf text).getLast? = some x.toUInt8 ↔ text.getLast? = some x := by
  rcases List.eq_nil_or_concat text with rfl | ⟨front, c, rfl⟩
  · simp
  · obtain ⟨first, more, hbytes, hfirst⟩ := exists_utf8EncodeChar c
    rw [List.concat_eq_append, List.getLast?_concat, Option.some_inj, bytesOf_append, bytesOf_cons,
      bytesOf_nil, List.append_nil, hbytes, List.getLast?_append_cons]
    cases more with
    | nil => rw [List.getLast?_singleton, Option.some_inj, (hfirst x hx).1]
    | cons second more =>
        refine iff_of_false ?_ ?_
        · intro hlast
          rw [List.getLast?_cons_cons] at hlast
          exact (hfirst x hx).2 (List.mem_of_getLast? hlast)
        · rintro rfl
          have hlength := congrArg List.length hbytes
          rw [String.length_utf8EncodeChar, hx] at hlength
          simp at hlength

end OneByte

end Text

end PrettyMarkup
