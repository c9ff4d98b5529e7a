/-!
# Text in bytes

Decoding UTF-8.  A byte string is cut into characters and faults: a fault is the
longest start of a character that is not continued, or a byte that starts none.
-/

namespace PrettyMarkup

namespace Text

/-- The ranges of the bytes that may follow a first byte, and none for other bytes. -/
def followers (first : UInt8) : List (UInt8 × UInt8) :=
  let any := (0x80, 0xBF)
  if first < 0xC2 then []
  else if first < 0xE0 then [any]
  else if first == 0xE0 then [(0xA0, 0xBF), any]
  else if first == 0xED then [(0x80, 0x9F), any]
  else if first < 0xF0 then [any, any]
  else if first == 0xF0 then [(0x90, 0xBF), any, any]
  else if first < 0xF4 then [any, any, any]
  else if first == 0xF4 then [(0x80, 0x8F), any, any]
  else []

/-- The bytes at the start of `bytes` that lie in the ranges, one after another. -/
def following : List (UInt8 × UInt8) → List UInt8 → List UInt8
  | [], _ => []
  | _, [] => []
  | (low, high) :: ranges, byte :: bytes =>
    if low ≤ byte && byte ≤ high then byte :: following ranges bytes else []

/-- The code number that a first byte and the bytes after it stand for. -/
def codeOf (first : UInt8) (more : List UInt8) : Nat :=
  let lead :=
    match more.length with
    | 0 => first.toNat
    | 1 => first.toNat % 0x20
    | 2 => first.toNat % 0x10
    | _ => first.toNat % 0x08
  more.foldl (fun code byte => code * 0x40 + byte.toNat % 0x40) lead

/-- The character at the start of a byte string, if there is no fault. -/
def charAt? (first : UInt8) (more : List UInt8) : Option Char :=
  let wanted := followers first
  if (first < 0x80 || !wanted.isEmpty) && more.length == wanted.length then
    some (Char.ofNat (codeOf first more))
  else none

/-- A byte string as characters and faults. -/
def decode : List UInt8 → List (Option Char)
  | [] => []
  | first :: rest =>
    let more := following (followers first) rest
    charAt? first more :: decode (rest.drop more.length)
  termination_by bytes => bytes.length
  decreasing_by
    simp only [List.length_cons, List.length_drop]
    omega

@[simp] theorem decode_nil : decode [] = [] := by
  rw [decode]

/-- The text of a byte string that has no fault. -/
def decode? (bytes : List UInt8) : Option String :=
  ((decode bytes).mapM id).map String.ofList

/-- The text of a byte string, with a replacement character for each fault. -/
def decodeLossy (bytes : List UInt8) : String :=
  String.ofList ((decode bytes).map fun found => found.getD '\uFFFD')

/-- A text in bytes. -/
def encode (text : String) : List UInt8 := text.toUTF8.toList

/-- The bytes of an array, one after another. -/
theorem toList_byteArray (bytes : ByteArray) : bytes.toList = bytes.data.toList := by
  have hloop : ∀ (i : Nat) (found : List UInt8), ByteArray.toList.loop bytes i found =
      found.reverse ++ bytes.data.toList.drop i := by
    intro i found
    fun_induction ByteArray.toList.loop bytes i found with
    | case1 i found h ih =>
        have hi : i < bytes.data.toList.length := h
        have hget : bytes.get! i = bytes.data.toList[i] := getElem!_pos bytes.data i h
        rw [ih, List.drop_eq_getElem_cons hi, hget, List.reverse_cons, List.append_assoc]
        rfl
    | case2 i found h =>
        have hi : bytes.data.toList.length ≤ i := Nat.le_of_not_lt h
        rw [List.drop_eq_nil_of_le hi, List.append_nil]
  exact hloop 0 []

/-- A text is known from its bytes. -/
theorem encode_inj {a b : String} : encode a = encode b ↔ a = b := by
  constructor
  · intro h
    rw [encode, encode, toList_byteArray, toList_byteArray, Array.toList_inj] at h
    exact String.toByteArray_inj.1 (ByteArray.ext h)
  · rintro rfl
    rfl

theorem encode_eq_nil_iff {text : String} : encode text = [] ↔ text = "" := by
  have hempty : encode "" = [] := ByteArray.toList_empty
  rw [← hempty, encode_inj]

end Text

end PrettyMarkup
