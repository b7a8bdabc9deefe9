import TapeCompiler.Text.Glyph
import TapeCompiler.Text.Printable

/-!
# Quoted text

Messages show names in double quotes. Printable characters stand for themselves,
a few control characters have short escapes, any other character is written as a
hexadecimal number of two, four or eight digits, and so is a stray byte.
-/

namespace TapeCompiler.Quoted

/-- One lower-case hexadecimal digit. -/
def hexDigit (n : Nat) : Char :=
  Nat.digitChar (n % 16)

/-- The last `width` hexadecimal digits of `n`, leading zeros included. -/
def hex : (width : Nat) → (n : Nat) → List Char
  | 0, _ => []
  | width + 1, n => hex width (n / 16) ++ [hexDigit n]

/-- The escape of a character, or the character itself if it is printable.
    `quote` is the quotation mark around the text. -/
def escape (quote : Char) (c : Char) : List Char :=
  if c = quote || c = '\\' then ['\\', c]
  else if isPrintable c then [c]
  else if c = '\x07' then ['\\', 'a']
  else if c = '\x08' then ['\\', 'b']
  else if c = '\x0c' then ['\\', 'f']
  else if c = '\n' then ['\\', 'n']
  else if c = '\r' then ['\\', 'r']
  else if c = '\t' then ['\\', 't']
  else if c = '\x0b' then ['\\', 'v']
  else if c.toNat < 0x80 then '\\' :: 'x' :: hex 2 c.toNat
  else if c.toNat < 0x10000 then '\\' :: 'u' :: hex 4 c.toNat
  else '\\' :: 'U' :: hex 8 c.toNat

/-- The escape of a glyph inside double quotes. -/
def escapeGlyph : Glyph → List Char
  | .char c => escape '"' c
  | .stray b => '\\' :: 'x' :: hex 2 b.toNat

/-- A byte string in double quotes. -/
def bytes (b : Bytes) : String :=
  String.ofList ('"' :: (Glyph.decode b).flatMap escapeGlyph ++ ['"'])

/-- A string in double quotes. -/
def string (s : String) : String :=
  String.ofList ('"' :: s.toList.flatMap (escape '"') ++ ['"'])

/-- A character in single quotes. -/
def char (c : Char) : String :=
  String.ofList ('\'' :: escape '\'' c ++ ['\''])

end TapeCompiler.Quoted
