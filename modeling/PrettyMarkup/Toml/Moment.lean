import PrettyMarkup.Number.Literal

/-!
# Dates and times

A moment is a date, a time, or both, then perhaps with an offset.  Its text has one
form: a `T` between date and time, and no zeros at the end of a fraction.

A moment stands in a document as a word or, by `Moment.ofText?`, as a quoted text, in
which a space may stand for the `T`.
-/

namespace PrettyMarkup

namespace Toml

structure Date where
  year : Nat
  month : Nat
  day : Nat
  deriving DecidableEq, Repr

structure Time where
  hour : Nat
  minute : Nat
  second : Nat
  nanosecond : Nat
  deriving DecidableEq, Repr

/-- The distance of a local time from universal time. -/
inductive Offset where
  | universal
  | minutes (amount : Int)
  deriving DecidableEq, Repr

/-- A date, a time, or both. -/
structure Moment where
  date : Option Date
  time : Option Time
  offset : Option Offset
  deriving DecidableEq, Repr

/-! ## Reading -/

/-- A number of exactly `width` digits at the start of a text, from `low` to `high`. -/
def fieldOf? (width low high : Nat) (text : List Char) : Option (Nat × List Char) := do
  let digits := text.take width
  if digits.length < width then none
  let n ← Number.natural? 10 digits
  if low ≤ n && n ≤ high then some (n, text.drop width) else none

/-- The text after a given first character. -/
def after? (c : Char) : List Char → Option (List Char)
  | [] => none
  | d :: rest => if c == d then some rest else none

def isLeapYear (year : Nat) : Bool :=
  year % 4 == 0 && (year % 100 != 0 || year % 400 == 0)

def daysIn (year month : Nat) : Nat :=
  if month == 2 then if isLeapYear year then 29 else 28
  else if month == 4 || month == 6 || month == 9 || month == 11 then 30
  else 31

/-- A date of the calendar at the start of a text. -/
def Date.read? (text : List Char) : Option (Date × List Char) := do
  let (year, rest) ← fieldOf? 4 0 9999 text
  let (month, rest) ← fieldOf? 2 1 12 (← after? '-' rest)
  let (day, rest) ← fieldOf? 2 1 (daysIn year month) (← after? '-' rest)
  return (⟨year, month, day⟩, rest)

/-- The nanoseconds of the digits after the point; further digits are dropped. -/
def nanoseconds (digits : List Char) : Nat :=
  let kept := digits.take 9
  ((Number.natural? 10 kept).getD 0) * Nat.pow 10 (9 - kept.length)

/-- A time of the day at the start of a text; a minute may have a leap second. -/
def Time.read? (text : List Char) : Option (Time × List Char) := do
  let (hour, rest) ← fieldOf? 2 0 23 text
  let (minute, rest) ← fieldOf? 2 0 59 (← after? ':' rest)
  let (second, rest) ← fieldOf? 2 0 60 (← after? ':' rest)
  match after? '.' rest with
  | none => return (⟨hour, minute, second, 0⟩, rest)
  | some fraction =>
    let digits := fraction.takeWhile Char.isDigit
    if digits.isEmpty then none
    return (⟨hour, minute, second, nanoseconds digits⟩, fraction.dropWhile Char.isDigit)

/-- An offset that is the whole of a text. -/
def Offset.read? (text : List Char) : Option Offset :=
  match text with
  | ['Z'] | ['z'] => some .universal
  | sign :: rest => do
    if sign != '+' && sign != '-' then none
    let (hour, rest) ← fieldOf? 2 0 23 rest
    let (minute, rest) ← fieldOf? 2 0 59 (← after? ':' rest)
    if !rest.isEmpty then none
    let amount : Int := hour * 60 + minute
    return .minutes (if sign == '-' then -amount else amount)
  | [] => none

/-- A time, perhaps with an offset, that is the whole of a text and follows a date. -/
def Moment.readAfter? (date : Date) (text : List Char) : Option Moment := do
  let (time, rest) ← Time.read? text
  if rest.isEmpty then return ⟨some date, some time, none⟩
  return ⟨some date, some time, some (← Offset.read? rest)⟩

/-- A moment that is the whole of a text without blanks. -/
def Moment.read? (text : List Char) : Option Moment :=
  match Date.read? text with
  | some (date, []) => some ⟨some date, none, none⟩
  | some (date, mark :: rest) =>
    if mark == 'T' || mark == 't' then Moment.readAfter? date rest else none
  | none => do
    let (time, rest) ← Time.read? text
    if rest.isEmpty then some ⟨none, some time, none⟩ else none

/-- A moment that is the whole of a quoted text. -/
def Moment.ofText? (text : List Char) : Option Moment :=
  match Date.read? text with
  | some (date, ' ' :: rest) => Moment.readAfter? date rest
  | _ => Moment.read? text

/-! ## Writing -/

/-- A number with zeros in front, `width` digits at least. -/
def padded (width n : Nat) : List Char :=
  let digits := Nat.toDigits 10 n
  List.replicate (width - digits.length) '0' ++ digits

def Date.render (date : Date) : List Char :=
  padded 4 date.year ++ ['-'] ++ padded 2 date.month ++ ['-'] ++ padded 2 date.day

def Time.render (time : Time) : List Char :=
  let fraction := ((padded 9 time.nanosecond).reverse.dropWhile (· == '0')).reverse
  padded 2 time.hour ++ [':'] ++ padded 2 time.minute ++ [':'] ++ padded 2 time.second ++
    if fraction.isEmpty then [] else '.' :: fraction

def Offset.render : Offset → List Char
  | universal => ['Z']
  | minutes amount =>
    (if amount < 0 then '-' else '+') ::
      (padded 2 (amount.natAbs / 60) ++ [':'] ++ padded 2 (amount.natAbs % 60))

/-- The text of a moment. -/
def Moment.render (moment : Moment) : String :=
  let date := (moment.date.map Date.render).getD []
  let time := (moment.time.map Time.render).getD []
  let mark := if moment.date.isSome && moment.time.isSome then ['T'] else []
  String.ofList (date ++ mark ++ time ++ (moment.offset.map Offset.render).getD [])

end Toml

end PrettyMarkup
