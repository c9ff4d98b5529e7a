import PrettyMarkup.Log
import PrettyMarkup.Text.Blank

/-!
# Which diagnostics are shown

A filter is written as the name of a level in any case, as `off`, or as a number from
zero for silence to five for everything.  The environment may hold one; if it cannot
be used, the command line decides.
-/

namespace PrettyMarkup

namespace CommandLine

open Log

/-- The filter of a number. -/
def filterOfNumber? : Nat → Option Filter
  | 0 => some none
  | n => (Level.all.find? fun level => level.rank == n).map some

/-- The filter of a number in digits, which may have a plus in front. -/
def filterOfDigits? (text : List Char) : Option Filter :=
  let digits := if text.head? == some '+' then text.tail else text
  if digits.isEmpty || !digits.all Char.isDigit then none
  else filterOfNumber? (digits.foldl (fun n c => n * 10 + (c.toNat - 0x30)) 0)

/-- The filter of a name in any case.  The empty name means errors only. -/
def filterOfName? (name : List Char) : Option Filter :=
  let upper := String.ofList (name.map Char.toUpper)
  if upper == "" then some (some .error)
  else if upper == "OFF" then some none
  else (Level.all.find? fun level => level.name == upper).map some

/-- The filter that a text means. -/
def filterOfText? (text : List Char) : Option Filter :=
  (filterOfDigits? text).or (filterOfName? text)

/-- The filter of a run, from the environment's setting and the command line's. -/
def filterOf (setting : Option String) (argument : String) : Filter :=
  let fromSetting := setting.bind fun text => filterOfText? (Text.trim text.toList)
  (fromSetting.or (filterOfText? argument.toList)).getD (some .warn)

end CommandLine

end PrettyMarkup
