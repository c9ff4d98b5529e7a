import PrettyMarkup.Toml.QuotedText
import PrettyMarkup.Toml.Table

/-!
# Reading values

Texts, numbers, booleans, moments, lists and tables as they stand after an equals
sign.  Lists and tables nest to a fixed depth.
-/

namespace PrettyMarkup

namespace Toml

/-- The number of levels that lists and tables nest, and one less than the parts of a key that are
too many. -/
def maxNesting : Nat := 79

/-! ## Words: values without brackets or quotes -/

/-- Whether a character ends a word. -/
def endsWord (c : Char) : Bool :=
  isSpace c || c == '\n' || c == '\r' || c == ',' || c == ']' || c == '\x7d' || c == '#'

/-- Digits without the underscores between them; each underscore stands between two digits. -/
def ungroup? (base : Nat) : List Char → Option (List Char)
  | [] => none
  | [d] => if (Number.digitValue? base d).isSome then some [d] else none
  | d :: '_' :: rest =>
    if (Number.digitValue? base d).isSome then (ungroup? base rest).map (d :: ·) else none
  | d :: rest =>
    if (Number.digitValue? base d).isSome then (ungroup? base rest).map (d :: ·) else none

/-- The digits of a whole number: no zero stands in front of others. -/
def wholeDigits? (text : List Char) : Option (List Char) := do
  let digits ← ungroup? 10 text
  if digits.head? == some '0' && text.length != 1 then none else some digits

/-- A decimal integer, with or without a sign. -/
def decimalInteger? (text : List Char) : Option Int := do
  let (negative, magnitude) := Number.splitSign text
  let n ← Number.natural? 10 (← wholeDigits? magnitude)
  return if negative then -(n : Int) else n

/-- An integer in decimal, hexadecimal, octal or binary digits. -/
def integerWord? (text : List Char) : Option Int := do
  let based (base : Nat) (digits : List Char) : Option Int := do
    return ((← Number.natural? base (← ungroup? base digits)) : Int)
  let n ← match text with
    | '0' :: 'x' :: digits => based 16 digits
    | '0' :: 'o' :: digits => based 8 digits
    | '0' :: 'b' :: digits => based 2 digits
    | _ => decimalInteger? text
  if Number.fitsWord n then some n else none

/-- The digits of an exponent, with their sign. -/
def exponentDigits? (text : List Char) : Option (List Char) := do
  let digits ← ungroup? 10 (Number.splitSign text).2
  return (if (Number.splitSign text).1 then ['-'] else []) ++ digits

/-- A decimal with a fraction, an exponent, or both, with its underscores removed. -/
def plainDecimal? (magnitude : List Char) : Option (List Char) := do
  let beforePower := magnitude.takeWhile fun c => !Number.isExponentMark c
  let power ← match magnitude.dropWhile (fun c => !Number.isExponentMark c) with
    | [] => some []
    | _ :: digits => (exponentDigits? digits).map ('e' :: ·)
  let whole ← wholeDigits? (beforePower.takeWhile (· != '.'))
  let fraction ← match beforePower.dropWhile (· != '.') with
    | [] => some []
    | _ :: digits => (ungroup? 10 digits).map ('.' :: ·)
  if power.isEmpty && fraction.isEmpty then none else some (whole ++ fraction ++ power)

/-- A floating point value; one that is too great is refused. -/
def decimalWord? (text : List Char) : Option Number.Binary64 := do
  let (negative, magnitude) := Number.splitSign text
  let signed (chars : List Char) := if negative then '-' :: chars else chars
  if magnitude == "inf".toList || magnitude == "nan".toList then
    Number.decimal? (signed magnitude)
  else
    let value ← Number.decimal? (signed (← plainDecimal? magnitude))
    if value == .infinite false then none else some value

/-- The value of a word. -/
def wordValue? (word : List Char) : Option Value :=
  if word == "true".toList then some (.boolean true)
  else if word == "false".toList then some (.boolean false)
  else ((Moment.read? word).map Value.moment).or <|
    ((decimalWord? word).map Value.decimal).or ((integerWord? word).map Value.integer)

/-- Reads a word.  A date may go on after one space with a time. -/
def word : Reader Value := do
  let first ← Reader.takeWhile fun c => !endsWord c
  match Date.read? first, ← Reader.remaining with
  | some (date, []), ' ' :: rest =>
    let second := rest.takeWhile fun c => !endsWord c
    if second.isEmpty then Reader.require (wordValue? first)
    else
      Reader.resume (rest.drop second.length)
      Reader.require ((Moment.readAfter? date second).map Value.moment)
  | _, _ => Reader.require (wordValue? first)

/-! ## Keys -/

/-- Whether a character may stand in a key without quotes. -/
def isBare (c : Char) : Bool := c.isAlphanum || c == '_' || c == '-'

/-- Reads one part of a key. -/
def keyPart : Reader String := do
  match ← Reader.peek with
  | some '\x22' =>
    Reader.expect ['\x22']
    lineText '\x22'
  | some '\x27' =>
    Reader.expect ['\x27']
    lineText '\x27'
  | _ =>
    let bare ← Reader.takeWhile isBare
    if bare.isEmpty then Reader.refuse else return String.ofList bare

/-- Reads the parts of a key, `fuel` at most, with blanks around the dots. -/
def keyParts : Nat → Reader (List String)
  | 0 => Reader.refuse
  | fuel + 1 => do
    skipSpaces
    let part ← keyPart
    skipSpaces
    if ← Reader.accept ['.'] then return part :: (← keyParts fuel) else return [part]

/-- Reads a key: the path to a table, and the name in it. -/
def key : Reader (List String × String) := do
  let parts ← keyParts maxNesting
  match parts.getLast? with
  | some name => return (parts.dropLast, name)
  | none => Reader.refuse

/-! ## Lists and tables -/

/-- Reads the items of a list up to its bracket.  A comma may follow the last one. -/
def items (item : Reader Value) : Nat → Reader (List Value)
  | 0 => Reader.refuse
  | fuel + 1 => do
    skipAll
    if ← Reader.accept [']'] then return []
    let first ← item
    skipAll
    if ← Reader.accept [','] then return first :: (← items item fuel)
    else
      Reader.expect [']']
      return [first]

/-- Reads an entry of a table that is written as a value. -/
def entry (item : Reader Value) (table : Table) : Reader Table := do
  let (path, name) ← key
  Reader.expect ['=']
  skipSpaces
  let value ← item
  skipSpaces
  Reader.require (table.assign path name value)

/-- Reads further entries up to the closing brace. -/
def entries (item : Reader Value) : Nat → Table → Reader Table
  | 0, _ => Reader.refuse
  | fuel + 1, table => do
    let table ← entry item table
    if ← Reader.accept [','] then entries item fuel table
    else
      Reader.expect ['\x7d']
      return table

/-- Reads a text in quotes or a word. -/
def scalar : Reader Value := do
  match ← Reader.peek with
  | some '\x22' => return .text (← quotedText '\x22')
  | some '\x27' => return .text (← quotedText '\x27')
  | _ => word

/-- Reads a value in which lists and tables nest at most `depth` levels. -/
def value : Nat → Reader Value
  | 0 => scalar
  | depth + 1 => do
    let fuel := (← Reader.remaining).length
    if ← Reader.accept ['['] then
      return .list false (← items (value depth) fuel)
    else if ← Reader.accept ['\x7b'] then
      skipSpaces
      if ← Reader.accept ['\x7d'] then return .table .inline []
      else
        let table ← entries (value depth) fuel (.empty .inline)
        return table.toValue
    else scalar

end Toml

end PrettyMarkup
