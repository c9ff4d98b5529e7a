/-!
# Sizes and places in bytes

Places in a text are counted in the bytes of its UTF-8 form.  A place counts only
where a character begins or the text ends.
-/

namespace PrettyMarkup

namespace Text

/-- The number of bytes of a text in UTF-8. -/
def byteSize : List Char → Nat
  | [] => 0
  | c :: rest => c.utf8Size + byteSize rest

@[simp] theorem byteSize_nil : byteSize [] = 0 := rfl

@[simp] theorem byteSize_cons (c : Char) (text : List Char) :
    byteSize (c :: text) = c.utf8Size + byteSize text := rfl

@[simp] theorem byteSize_append (s t : List Char) :
    byteSize (s ++ t) = byteSize s + byteSize t := by
  induction s with
  | nil => simp
  | cons c s ih => simp [ih, Nat.add_assoc]

/-- Only the empty text has no bytes. -/
theorem byteSize_eq_zero_iff {text : List Char} : byteSize text = 0 ↔ text = [] := by
  cases text with
  | nil => simp
  | cons c rest =>
      have := c.utf8Size_pos
      simp only [byteSize_cons, reduceCtorEq, iff_false]
      omega

/-- A text cut after its first `n` bytes, if a character ends there. -/
def splitAtByte : Nat → List Char → Option (List Char × List Char)
  | 0, text => some ([], text)
  | _ + 1, [] => none
  | n + 1, c :: rest =>
    if c.utf8Size ≤ n + 1 then
      (splitAtByte (n + 1 - c.utf8Size) rest).map fun (before, after) => (c :: before, after)
    else none

/-- A cut loses nothing, and its first part has the size asked for. -/
theorem splitAtByte_eq_some {n : Nat} {text before after : List Char}
    (h : splitAtByte n text = some (before, after)) :
    before ++ after = text ∧ byteSize before = n := by
  induction text generalizing n before with
  | nil =>
      cases n with
      | zero => simp_all [splitAtByte]
      | succ n => simp [splitAtByte] at h
  | cons c rest ih =>
      cases n with
      | zero => simp_all [splitAtByte]
      | succ n =>
          rw [splitAtByte] at h
          split at h
          · rename_i hc
            obtain ⟨⟨u, v⟩, huv, heq⟩ := Option.map_eq_some_iff.1 h
            simp only [Prod.mk.injEq] at heq
            obtain ⟨rfl, rfl⟩ := heq
            obtain ⟨hcat, hsize⟩ := ih huv
            refine ⟨by simp [hcat], ?_⟩
            simp only [byteSize_cons, hsize]
            omega
          · simp at h

/-- The part of a text between two places, if both are places of it and in order. -/
def slice? (start stop : Nat) (text : List Char) : Option (List Char) :=
  if start ≤ stop then do
    let (_, after) ← splitAtByte start text
    let (inside, _) ← splitAtByte (stop - start) after
    return inside
  else none

end Text

end PrettyMarkup
