/-!
# The standard output

A run writes its output to a stream, and the system may refuse what is written.

## Implementation notes

The stream passes on whole lines.  What stands behind the last line end is passed on when the
program ends, and nobody is told if it is refused then; so only of whole lines it is known that they
come out if no error is seen.
-/

namespace PrettyMarkup

namespace CommandLine

/-- Whole lines: the last byte, if there is one, is a line feed. -/
def WholeLines (bytes : List UInt8) : Prop := ∀ last ∈ bytes.getLast?, last = 0x0A

/-- How the standard output answers to what is written. -/
structure Sink where
  /-- What comes out of the bytes that are written. -/
  taken : List UInt8 → List UInt8
  /-- The system's words, if it refuses the bytes. -/
  refusal? : List UInt8 → Option String
  taken_front : ∀ bytes, taken bytes <+: bytes
  taken_lines : ∀ bytes, WholeLines bytes → refusal? bytes = none → taken bytes = bytes

namespace Sink

/-- A stream that takes everything. -/
def everything : Sink where
  taken bytes := bytes
  refusal? _ := none
  taken_front _ := List.prefix_rfl
  taken_lines _ _ _ := rfl

/-- A stream that has room for some bytes only. -/
def ofRoom (room : Nat) (reason : String) : Sink where
  taken bytes := bytes.take room
  refusal? bytes := if room < bytes.length then some reason else none
  taken_front bytes := List.take_prefix room bytes
  taken_lines bytes _ h := by
    apply List.take_of_length_le
    simpa using h

/-- The bytes are refused, in part or as a whole. -/
def Refuses (sink : Sink) (bytes : List UInt8) : Prop := ∃ reason, sink.refusal? bytes = some reason

/-- Writes bytes: what comes out, and the system's words if they are refused.  Where there is
nothing to write, the stream is left alone. -/
def write (sink : Sink) (bytes : List UInt8) : List UInt8 × Option String :=
  if bytes.isEmpty then ([], none) else (sink.taken bytes, sink.refusal? bytes)

variable {sink : Sink} {bytes : List UInt8}

@[simp] theorem write_nil : sink.write [] = ([], none) := rfl

theorem write_of_ne (h : bytes ≠ []) : sink.write bytes = (sink.taken bytes, sink.refusal? bytes) :=
  if_neg (mt List.isEmpty_iff.1 h)

/-- Only what the stream refuses fails to be written. -/
theorem refuses_of_write {reason : String} (h : (sink.write bytes).2 = some reason) :
    sink.Refuses bytes := by
  by_cases hempty : bytes = []
  · rw [hempty, write_nil] at h
    cases h
  · rw [write_of_ne hempty] at h
    exact ⟨reason, h⟩

/-- Whole lines that are written without an error come out. -/
theorem write_lines (hlines : WholeLines bytes) (h : (sink.write bytes).2 = none) :
    (sink.write bytes).1 = bytes := by
  by_cases hempty : bytes = []
  · rw [hempty, write_nil]
  · rw [write_of_ne hempty] at h ⊢
    exact sink.taken_lines bytes hlines h

end Sink

end CommandLine

end PrettyMarkup
