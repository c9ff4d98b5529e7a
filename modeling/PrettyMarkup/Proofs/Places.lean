import PrettyMarkup.Text.ByteSize

/-!
# Places in a text

The bytes in front of a place are the bytes of the characters in front of it: a text cut
after as many bytes as its front has is cut behind the front.
-/

namespace PrettyMarkup

namespace Text

/-- Cutting a text after the bytes of its front gives the front. -/
theorem splitAtByte_append (before after : List Char) :
    splitAtByte (byteSize before) (before ++ after) = some (before, after) := by
  induction before with
  | nil => simp [splitAtByte]
  | cons c before ih =>
      have hpos := c.utf8Size_pos
      obtain ⟨n, hn⟩ : ∃ n, c.utf8Size + byteSize before = n + 1 :=
        ⟨c.utf8Size + byteSize before - 1, by omega⟩
      have hrest : n + 1 - c.utf8Size = byteSize before := by omega
      rw [byteSize_cons, hn, List.cons_append, splitAtByte, if_pos (by omega), hrest, ih]
      rfl

theorem slice?_append (before inside after : List Char) :
    slice? (byteSize before) (byteSize before + byteSize inside) (before ++ inside ++ after) =
      some inside := by
  have hfront := splitAtByte_append before (inside ++ after)
  have hinside := splitAtByte_append inside after
  simp [slice?, hfront, hinside]

/-- What stands at a place behind a front stands behind the front in the rest of the text. -/
theorem exists_append_of_byteSize_le {front text before after : List Char}
    (h : front ++ text = before ++ after) (hsize : byteSize front ≤ byteSize before) :
    ∃ inside, before = front ++ inside ∧ text = inside ++ after := by
  rcases List.append_eq_append_iff.1 h with ⟨inside, hbefore, htext⟩ | ⟨inside, hfront, hafter⟩
  · exact ⟨inside, hbefore, htext⟩
  · have hinside : inside = [] := by
      rw [hfront, byteSize_append] at hsize
      exact byteSize_eq_zero_iff.1 (by omega)
    subst hinside
    exact ⟨[], by simp [hfront], hafter.symm⟩

theorem byteSize_le_of_prefix {s t : List Char} (h : s <+: t) : byteSize s ≤ byteSize t := by
  obtain ⟨rest, rfl⟩ := h
  rw [byteSize_append]
  exact Nat.le_add_right _ _

/-- Of two fronts of a text, the one with more bytes has more characters. -/
theorem byteSize_lt_iff {s t text : List Char} (hs : s <+: text) (ht : t <+: text) :
    byteSize s < byteSize t ↔ s.length < t.length := by
  rcases List.prefix_or_prefix_of_prefix hs ht with hst | hts
  · obtain ⟨rest, rfl⟩ := hst
    cases rest with
    | nil => simp
    | cons c rest =>
        have hpos := c.utf8Size_pos
        rw [byteSize_append, byteSize_cons, List.length_append, List.length_cons]
        omega
  · have hsize := byteSize_le_of_prefix hts
    have hlength := hts.length_le
    omega

theorem utf8ByteSize_ofList (text : List Char) :
    (String.ofList text).utf8ByteSize = byteSize text := by
  induction text with
  | nil => rfl
  | cons c text ih =>
      have hcat : String.ofList (c :: text) = String.singleton c ++ String.ofList text := by
        rw [String.singleton_eq_ofList, ← String.ofList_append, List.singleton_append]
      rw [hcat, String.utf8ByteSize_append, String.utf8ByteSize_singleton, ih, byteSize_cons]

/-- A place after the bytes of a text's front is a position of the text. -/
theorem isValid_byteSize (before after : List Char) :
    (⟨byteSize before⟩ : String.Pos.Raw).IsValid (String.ofList (before ++ after)) := by
  have hend : (⟨byteSize before⟩ : String.Pos.Raw) = (String.ofList before).rawEndPos := by
    rw [String.Pos.Raw.ext_iff, String.byteIdx_rawEndPos, utf8ByteSize_ofList]
  rw [hend, String.ofList_append]
  exact String.Pos.Raw.isValid_rawEndPos.append_right _

end Text

end PrettyMarkup
