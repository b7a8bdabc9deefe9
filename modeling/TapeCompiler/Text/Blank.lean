import TapeCompiler.Text.Glyph

/-!
# Blank characters

The blanks are the characters with the White_Space property. Entries of a session
are cut into words at runs of blanks, and tool banners and program names are
trimmed of them. A stray byte is never blank.
-/

namespace TapeCompiler

/-- Whether a character is white space. -/
def isBlank (c : Char) : Bool :=
  c = ' ' || ('\t' ≤ c && c ≤ '\r') || c = '\u0085' || c = '\u00a0' || c = '\u1680' ||
    ('\u2000' ≤ c && c ≤ '\u200a') || c = '\u2028' || c = '\u2029' || c = '\u202f' ||
    c = '\u205f' || c = '\u3000'

/-- Whether a glyph is white space. -/
def Glyph.isBlank : Glyph → Bool
  | .char c => TapeCompiler.isBlank c
  | .stray _ => false

namespace Blank

/-- The maximal blank-free runs of a glyph list. `word` holds the run being read,
    last glyph first, and `acc` the runs before it, last run first. -/
def wordsOnto (acc : List (List Glyph)) (word : List Glyph) : List Glyph → List (List Glyph)
  | [] => if word.isEmpty then acc else word.reverse :: acc
  | g :: rest =>
    if g.isBlank then
      wordsOnto (if word.isEmpty then acc else word.reverse :: acc) [] rest
    else
      wordsOnto acc (g :: word) rest

/-- The words of a byte string: its maximal runs without a blank. -/
def words (bytes : Bytes) : List Bytes :=
  ((wordsOnto [] [] (Glyph.decode bytes)).reverse).map Glyph.encode

/-- A byte string without the blanks at either end. -/
def trim (bytes : Bytes) : Bytes :=
  let front := (Glyph.decode bytes).dropWhile Glyph.isBlank
  Glyph.encode (front.reverse.dropWhile Glyph.isBlank).reverse

/-- Whether a byte string holds nothing but blanks. -/
def isAllBlank (bytes : Bytes) : Bool :=
  (Glyph.decode bytes).all Glyph.isBlank

end Blank

end TapeCompiler
