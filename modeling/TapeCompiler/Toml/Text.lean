/-!
# Strings of TOML

A string is written between quotes or apostrophes, on one line between single ones
and over several lines between triple ones. Between quotes a backslash starts an
escape; between apostrophes everything stands for itself. Each reader takes the
characters after the opening mark and gives the text and what follows the closing
mark.
-/

namespace TapeCompiler.Toml

/-- Whether a character ends a line. A carriage return does only before a line feed;
    elsewhere it is refused before any of this runs. -/
def isNewline (c : Char) : Bool := c = '\n' || c = '\r'

/-- Whether a character is blank within a line. -/
def isGap (c : Char) : Bool := c = ' ' || c = '\t'

/-- The value of a hexadecimal digit. -/
def hexDigit? (c : Char) : Option Nat :=
  if '0' ≤ c && c ≤ '9' then some (c.toNat - '0'.toNat)
  else if 'a' ≤ c && c ≤ 'f' then some (c.toNat - 'a'.toNat + 10)
  else if 'A' ≤ c && c ≤ 'F' then some (c.toNat - 'A'.toNat + 10)
  else none

/-- The number that hexadecimal digits write. -/
def hexNumber? (digits : List Char) : Option Nat :=
  digits.foldlM (fun n c => (hexDigit? c).map (n * 16 + ·)) 0

/-- The character whose code hexadecimal digits write. -/
def hexChar? (digits : List Char) : Option Char := do
  let n ← hexNumber? digits
  if n.isValidChar then some (Char.ofNat n) else none

/-- Replaces the escapes of a text; `acc` is what stands before it, last character
    first. An escape that is not known has no meaning. -/
def unescapeOnto (acc : List Char) : List Char → Option (List Char)
  | [] => some acc.reverse
  | '\\' :: 'b' :: rest => unescapeOnto ('\x08' :: acc) rest
  | '\\' :: 't' :: rest => unescapeOnto ('\t' :: acc) rest
  | '\\' :: 'n' :: rest => unescapeOnto ('\n' :: acc) rest
  | '\\' :: 'f' :: rest => unescapeOnto ('\x0c' :: acc) rest
  | '\\' :: 'r' :: rest => unescapeOnto ('\r' :: acc) rest
  | '\\' :: '"' :: rest => unescapeOnto ('"' :: acc) rest
  | '\\' :: '\\' :: rest => unescapeOnto ('\\' :: acc) rest
  | '\\' :: 'u' :: a :: b :: c :: d :: rest =>
    match hexChar? [a, b, c, d] with
    | some char => unescapeOnto (char :: acc) rest
    | none => none
  | '\\' :: 'U' :: a :: b :: c :: d :: e :: f :: g :: h :: rest =>
    match hexChar? [a, b, c, d, e, f, g, h] with
    | some char => unescapeOnto (char :: acc) rest
    | none => none
  | c :: rest => if c = '\\' then none else unescapeOnto (c :: acc) rest

/-- Replaces the escapes of a text. -/
def unescape (raw : List Char) : Option (List Char) :=
  unescapeOnto [] raw

/-- Whether nothing but blanks stands before the next line end. -/
def endsLine (text : List Char) : Bool :=
  (text.takeWhile fun c => isGap c || isNewline c).contains '\n'

/-- Removes each backslash at the end of a line, together with the blanks and line
    ends after it; `skip` says that such a run is being removed. -/
def joinLinesOnto (acc : List Char) (skip : Bool) : List Char → List Char
  | [] => acc.reverse
  | '\\' :: '\\' :: rest => joinLinesOnto ('\\' :: '\\' :: acc) false rest
  | c :: rest =>
    if skip && (isGap c || isNewline c) then joinLinesOnto acc true rest
    else if c = '\\' && endsLine rest then joinLinesOnto acc true rest
    else joinLinesOnto (c :: acc) false rest

/-- Removes each backslash at the end of a line, together with the blanks and line
    ends after it. -/
def joinLines (raw : List Char) : List Char :=
  joinLinesOnto [] false raw

/-- The text without the line end it starts with. -/
def dropFirstNewline : List Char → List Char
  | '\n' :: rest => rest
  | '\r' :: '\n' :: rest => rest
  | text => text

/-- The raw text up to a closing quote on the same line. -/
def quotedOnto (raw : List Char) : List Char → Option (List Char × List Char)
  | [] => none
  | '"' :: rest => some (raw.reverse, rest)
  | '\\' :: c :: rest => if isNewline c then none else quotedOnto (c :: '\\' :: raw) rest
  | c :: rest => if isNewline c then none else quotedOnto (c :: raw) rest

/-- A one-line string between quotes. -/
def quoted (text : List Char) : Option (String × List Char) := do
  let (raw, rest) ← quotedOnto [] text
  let chars ← unescape raw
  some (String.ofList chars, rest)

/-- A one-line string between apostrophes. -/
def literal (text : List Char) : Option (String × List Char) :=
  let inside := text.takeWhile fun c => c != '\'' && !isNewline c
  match text.drop inside.length with
  | '\'' :: rest => some (String.ofList inside, rest)
  | _ => none

/-- The raw text up to three closing quotes. A run of up to five quotes closes the
    string by its last three; a sixth is refused, unless the first of them is
    escaped. -/
def quotedBlockOnto (raw : List Char) : List Char → Option (List Char × List Char)
  | [] => none
  | '"' :: '"' :: '"' :: '"' :: rest =>
    if raw.take 2 = ['"', '"'] && raw[2]? != some '\\' then none
    else quotedBlockOnto ('"' :: raw) ('"' :: '"' :: '"' :: rest)
  | '"' :: '"' :: '"' :: rest => some (raw.reverse, rest)
  | '\\' :: c :: rest => quotedBlockOnto (c :: '\\' :: raw) rest
  | c :: rest => quotedBlockOnto (c :: raw) rest

/-- A string of several lines between triple quotes. -/
def quotedBlock (text : List Char) : Option (String × List Char) := do
  let (raw, rest) ← quotedBlockOnto [] text
  let chars ← unescape (joinLines (dropFirstNewline raw))
  some (String.ofList chars, rest)

/-- The text up to three closing apostrophes, by the same rule on longer runs. -/
def literalBlockOnto (raw : List Char) : List Char → Option (List Char × List Char)
  | [] => none
  | '\'' :: '\'' :: '\'' :: '\'' :: rest =>
    if raw.take 2 = ['\'', '\''] then none
    else literalBlockOnto ('\'' :: raw) ('\'' :: '\'' :: '\'' :: rest)
  | '\'' :: '\'' :: '\'' :: rest => some (raw.reverse, rest)
  | c :: rest => literalBlockOnto (c :: raw) rest

/-- A string of several lines between triple apostrophes. -/
def literalBlock (text : List Char) : Option (String × List Char) := do
  let (raw, rest) ← literalBlockOnto [] text
  some (String.ofList (dropFirstNewline raw), rest)

end TapeCompiler.Toml
