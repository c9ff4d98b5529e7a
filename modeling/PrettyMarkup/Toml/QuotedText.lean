import PrettyMarkup.Number.Literal
import PrettyMarkup.Toml.Reader

/-!
# Texts in quotes

A text stands in double quotes, with escapes, or in single quotes, as it is.  Three
quotes open a text that may go over several lines; up to two quotes may stand right
before the three that close it.

## Implementation notes

A text is read in two steps: its extent is found, and what it holds is then written
out.  Each step is a recursion on the characters.
-/

namespace PrettyMarkup

namespace Toml

/-- Cuts a text of one line at its closing quote; with `escapes`, a backslash keeps the quote
after it from closing. -/
def cutLine (quote : Char) (escapes : Bool) : List Char → Option (List Char × List Char)
  | [] => none
  | c :: rest =>
    if c == quote then some ([], rest)
    else if escapes && c == '\\' then
      match rest with
      | [] => none
      | d :: rest =>
        (cutLine quote escapes rest).map fun (inside, after) => (c :: d :: inside, after)
    else (cutLine quote escapes rest).map fun (inside, after) => (c :: inside, after)

/-- Cuts a text of several lines at its three closing quotes. -/
def cutLines (quote : Char) (escapes : Bool) : List Char → Option (List Char × List Char)
  | [] => none
  | c :: rest =>
    if c == quote && [quote, quote].isPrefixOf rest then
      let extra := min 2 ((rest.drop 2).takeWhile (· == quote)).length
      some (List.replicate extra quote, rest.drop (2 + extra))
    else if escapes && c == '\\' then
      match rest with
      | [] => none
      | d :: rest =>
        (cutLines quote escapes rest).map fun (inside, after) => (c :: d :: inside, after)
    else (cutLines quote escapes rest).map fun (inside, after) => (c :: inside, after)

/-- The character with the given number in hexadecimal digits. -/
def scalar? (digits : List Char) : Option Char := do
  let n ← Number.natural? 16 digits
  if n.isValidChar then some (Char.ofNat n) else none

/-- What a backslash and one more character stand for. -/
def shortEscape? : Char → Option Char
  | 'b' => some '\x08'
  | 't' => some '\t'
  | 'n' => some '\n'
  | 'f' => some '\x0C'
  | 'r' => some '\r'
  | '\x22' => some '\x22'
  | '\\' => some '\\'
  | _ => none

/-- Whether the rest of the line is blank, so that a backslash before it joins the lines. -/
def meetsLineEnd (text : List Char) : Bool :=
  let after := text.dropWhile isSpace
  ['\n'].isPrefixOf after || ['\r', '\n'].isPrefixOf after

/-- Writes the escapes of a text out.  With `lines`, line ends may stand in it; with `joining`,
the blanks and line ends at its start are dropped. -/
def unescape (lines joining : Bool) : List Char → Option (List Char)
  | [] => some []
  | '\r' :: '\n' :: rest =>
    if joining then unescape lines true rest
    else if lines then (unescape lines false rest).map ('\n' :: ·)
    else none
  | '\\' :: 'u' :: a :: b :: c :: d :: rest => do
    let first ← scalar? [a, b, c, d]
    return first :: (← unescape lines false rest)
  | '\\' :: 'U' :: a :: b :: c :: d :: e :: f :: g :: h :: rest => do
    let first ← scalar? [a, b, c, d, e, f, g, h]
    return first :: (← unescape lines false rest)
  | '\\' :: c :: rest =>
    if lines && meetsLineEnd (c :: rest) then unescape lines true (c :: rest)
    else do
      let first ← shortEscape? c
      return first :: (← unescape lines false rest)
  | c :: rest =>
    if joining && (isSpace c || c == '\n') then unescape lines true rest
    else if isPlain c && c != '\\' || (lines && c == '\n') then
      (unescape lines false rest).map (c :: ·)
    else none

/-- Checks a text in single quotes; line ends become line feeds. -/
def unescapeNothing (lines : Bool) : List Char → Option (List Char)
  | [] => some []
  | '\r' :: '\n' :: rest =>
    if lines then (unescapeNothing lines rest).map ('\n' :: ·) else none
  | c :: rest =>
    if isPlain c || (lines && c == '\n') then (unescapeNothing lines rest).map (c :: ·) else none

/-- Reads what follows an opening quote, on one line. -/
def lineText (quote : Char) : Reader String := do
  let escapes := quote == '\x22'
  let (inside, after) ← Reader.require (cutLine quote escapes (← Reader.remaining))
  Reader.resume after
  let chars ← Reader.require
    (if escapes then unescape false false inside else unescapeNothing false inside)
  return String.ofList chars

/-- Reads what follows three opening quotes; a line end right after them does not count. -/
def linesText (quote : Char) : Reader String := do
  let escapes := quote == '\x22'
  let _ ← acceptLineEnd
  let (inside, after) ← Reader.require (cutLines quote escapes (← Reader.remaining))
  Reader.resume after
  let chars ← Reader.require
    (if escapes then unescape true false inside else unescapeNothing true inside)
  return String.ofList chars

/-- Reads a text in quotes, over one or more lines. -/
def quotedText (quote : Char) : Reader String := do
  if ← Reader.accept [quote, quote, quote] then linesText quote
  else
    Reader.expect [quote]
    lineText quote

end Toml

end PrettyMarkup
