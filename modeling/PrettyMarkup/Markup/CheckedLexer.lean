import PrettyMarkup.Markup.Lexeme
import PrettyMarkup.Text.Utf8

/-!
# Lexing by places

A lexer that keeps places of a text and cuts the text at them.  Whatever may go wrong with places is
checked: a cut that is no cut of the text or that splits a character, a place that is taken from a
smaller one, a byte that is looked up behind the end, and a loop that does not go on.  The result is
then `none`.

## Implementation notes

Another lexer says which marker stands at the front of a text.  It is a parameter, together with
what is asked of it (`IsMarkerLexer`).
-/

namespace PrettyMarkup

namespace Markup

open Text

/-! ## Markers -/

/-- What a text can start with: what opens a comment or a tag, or data. -/
inductive Marker where
  | comment
  | tag (form : TagForm)
  | data
  deriving DecidableEq, Repr

/-- How a marker is written; data is written in many ways. -/
def Marker.written? : Marker → Option (List Char)
  | comment => some commentOpen
  | tag .instruction => some ['<', '?']
  | tag .closing => some ['<', '/']
  | tag .opening => some ['<']
  | data => none

/-- What is asked of a lexer that gives the marker at the front of a text, and its bytes: of those
that are written there it takes the longest, and data up to the next `<`. -/
structure IsMarkerLexer (next : List Char → Option (Marker × Nat)) : Prop where
  empty : next [] = none
  data : ∀ c rest, c ≠ '<' →
    next (c :: rest) = some (.data, byteSize (c :: rest.takeWhile (· != '<')))
  longest : ∀ rest, ∃ marker written, next ('<' :: rest) = some (marker, byteSize written) ∧
    marker.written? = some written ∧ written <+: '<' :: rest ∧
    ∀ other longer, Marker.written? other = some longer → longer <+: '<' :: rest →
      longer.length ≤ written.length

/-- Such a lexer. -/
def markerAt : List Char → Option (Marker × Nat)
  | [] => none
  | c :: rest =>
    if c == '<' then
      if commentBodyOpen.isPrefixOf rest then some (.comment, byteSize commentOpen)
      else
        match TagForm.ofBody rest with
        | .opening => some (.tag .opening, 1)
        | form => some (.tag form, 2)
    else some (.data, byteSize (c :: rest.takeWhile (· != '<')))

/-! ## Checks -/

namespace Checked

/-- The difference of two places. -/
def sub? (stop start : Nat) : Option Nat := if start ≤ stop then some (stop - start) else none

/-- The token between two places, or none if nothing stands between them. -/
def push? (source : String) (kind : Kind) (start stop : Nat) : Option (List Token) :=
  if start < stop then (Token.ofRange? kind source start stop).map fun token => [token]
  else some []

/-- The place of a text in another one. -/
def findText? (searched : List Char) : List Char → Option Nat
  | [] => if searched.isEmpty then some 0 else none
  | c :: rest =>
    if searched.isPrefixOf (c :: rest) then some 0
    else (findText? searched rest).map (c.utf8Size + ·)

/-! ## The end of a tag -/

/-- Whether the `>` at a place in a literal ends it and its tag, by the byte behind the place. -/
def splitsAt (guard : Bool) (bytes : List UInt8) (index : Nat) : Bool :=
  !guard && bytes[index + 1]? == some '<'.toUInt8

/-- Whether the byte at a place ends a CDATA section. -/
def endsCdata? (guard : Bool) (body : List Char) (bytes : List UInt8) (index : Nat) :
    Option Bool := do
  let byte ← bytes[index]?
  if byte == '>'.toUInt8 then
    let front ← slice? 0 index body
    return cdataMarks.isSuffixOf front || splitsAt guard bytes index
  else return false

/-- The place of the byte that ends a tag.  The bytes left stand at `index`, and `quote` is open in
front of them. -/
def plainEnd? (guard : Bool) (bytes : List UInt8) :
    Option UInt8 → Nat → List UInt8 → Option (Option Nat)
  | _, _, [] => some none
  | some quote, index, byte :: rest =>
    if byte == quote then plainEnd? guard bytes none (index + 1) rest
    else if byte == '>'.toUInt8 && splitsAt guard bytes index then some (some index)
    else plainEnd? guard bytes (some quote) (index + 1) rest
  | none, index, byte :: rest =>
    if byte == '>'.toUInt8 then some (some index)
    else if (byte == '\x22'.toUInt8 || byte == '\x27'.toUInt8) && decide (0 < index) then do
      let before ← bytes[index - 1]?
      plainEnd? guard bytes (if before == '='.toUInt8 then some byte else none) (index + 1) rest
    else plainEnd? guard bytes none (index + 1) rest

/-- The place of the `>` that ends a tag body. -/
def tagEnd? (guard : Bool) (body : List Char) : Option (Option Nat) :=
  let bytes := encode (String.ofList body)
  if cdataBodyOpen.isPrefixOf body then
    let first := byteSize cdataBodyOpen
    (List.range' first (bytes.length - first)).findM? (endsCdata? guard body bytes)
  else plainEnd? guard bytes none 0 bytes

/-! ## Attributes -/

/-- The bytes of a guarded attribute that go on, by the open quote and the last character. -/
def guardedLength : Option Char → Option Char → List Char → Nat
  | _, _, [] => 0
  | some quote, _, c :: rest =>
    c.utf8Size + guardedLength (if c == quote then none else some quote) (some c) rest
  | none, last, c :: rest =>
    if isBlank c then 0
    else
      c.utf8Size +
        guardedLength (if isQuote c && last == some '=' then some c else none) (some c) rest

/-- The bytes of the attribute that a text starts with. -/
def segmentLength (guard : Bool) (text : List Char) : Nat :=
  if guard then guardedLength none none text else byteSize (text.takeWhile fun c => !isBlank c)

/-- The tokens of an attribute at a place. -/
def attribute? (source : String) (start : Nat) (written : List Char) : Option (List Token) :=
  let stop := start + byteSize written
  let whole := push? source .attributeName start stop
  match findText? ['='] written with
  | none => whole
  | some size =>
    if 0 < size then do
      let equals := start + size
      let name ← push? source .attributeName start equals
      let sign ← push? source .equals equals (equals + 1)
      let value ← push? source .attributeValue (equals + 1) stop
      return name ++ sign ++ value
    else whole

/-- The tokens of the gap or the attribute at a place, and their bytes.  The text left starts with
it. -/
def gapOrAttribute? (guard : Bool) (source : String) (start : Nat) (text : List Char) :
    Option (List Token × Nat) := do
  let gap ← sub? (byteSize text) (byteSize (trimStart text))
  if 0 < gap then return (← push? source .text start (start + gap), gap)
  else
    let length := segmentLength guard text
    let written ← slice? 0 length text
    return (← attribute? source start written, length)

/-- The tokens of gaps and attributes from a place of a text on.  The text stands at `start`. -/
def attributesFrom? (guard : Bool) (source : String) (start : Nat) (text : List Char)
    (position : Nat) : Option (List Token) :=
  if position < byteSize text then do
    let rest ← slice? position (byteSize text) text
    let (tokens, length) ← gapOrAttribute? guard source (start + position) rest
    if 0 < length then
      return tokens ++ (← attributesFrom? guard source start text (position + length))
    else none
  else some []
  termination_by byteSize text - position

/-- The tokens of an opening tag between its brackets. -/
def openingBody? (guard : Bool) (source : String) (start stop : Nat) : Option (List Token) := do
  let text ← slice? start stop source.toList
  let length := byteSize (text.takeWhile fun c => !isBlank c)
  let name ← push? source .tagOpenName start (start + length)
  let attributes ← attributesFrom? guard source start text length
  return name ++ attributes

/-! ## Tags and comments -/

/-- The tokens of a body between two places, and of the bracket behind it. -/
def endedBody? (guard : Bool) (source : String) (form : TagForm) (start stop : Nat) :
    Option (List Token) := do
  match form with
  | .opening =>
    let body ← slice? start stop source.toList
    let closing ← if body.getLast? == some '/' then sub? stop 1 else some stop
    let inside ← openingBody? guard source start closing
    let bracket ← push? source .bracketClose closing (stop + 1)
    return inside ++ bracket
  | form =>
    let inside ← push? source form.bodyKind start stop
    let bracket ← push? source .bracketClose stop (stop + 1)
    return inside ++ bracket

/-- The tokens of the tag at a place, and the place behind the tag if it has an end. -/
def tag? (guard : Bool) (source : String) (form : TagForm) (start : Nat) :
    Option (List Token × Option Nat) := do
  let inner := start + 1
  let body ← slice? inner source.utf8ByteSize source.toList
  let bracket ← push? source .bracketOpen start inner
  match ← tagEnd? guard body with
  | none =>
    let inside ← push? source form.bodyKind inner source.utf8ByteSize
    return (bracket ++ inside, none)
  | some length =>
    let inside ← endedBody? guard source form inner (inner + length)
    return (bracket ++ inside, some (inner + length + 1))

/-- The token of the comment at a place, and the place behind the comment if it has an end. -/
def comment? (source : String) (start : Nat) : Option (List Token × Option Nat) := do
  let inner := start + byteSize commentOpen
  let rest ← slice? inner source.utf8ByteSize source.toList
  match findText? commentClose rest with
  | none => return (← push? source .comment start source.utf8ByteSize, none)
  | some offset =>
    let stop := inner + offset + byteSize commentClose
    return (← push? source .comment start stop, some stop)

/-! ## Whole texts -/

/-- The tokens of what the marker between two places opens, and the place behind that if it has an
end. -/
def marked? (guard : Bool) (source : String) (marker : Marker) (start stop : Nat) :
    Option (List Token × Option Nat) :=
  match marker with
  | .comment => comment? source start
  | .tag form => tag? guard source form start
  | .data => do return (← push? source .text start stop, some stop)

/-- Moves a place of a text by a number of bytes. -/
def bump? (source : String) (place size : Nat) : Option Nat :=
  (splitAtByte (place + size) source.toList).map fun _ => place + size

/-- The tokens of a text from a place on. -/
def tokensFrom? (next : List Char → Option (Marker × Nat)) (guard : Bool) (source : String)
    (place : Nat) : Option (List Token) := do
  let rest ← slice? place source.utf8ByteSize source.toList
  match next rest with
  | none => return []
  | some (marker, length) =>
    let (tokens, found) ← marked? guard source marker place (place + length)
    match found with
    | none => return tokens
    | some stop =>
      let onward ← bump? source (place + length) (← sub? stop (place + length))
      if place < onward ∧ onward ≤ source.utf8ByteSize then
        return tokens ++ (← tokensFrom? next guard source onward)
      else none
  termination_by source.utf8ByteSize - place

end Checked

end Markup

end PrettyMarkup
