import TapeCompiler.Text.Column
import TapeCompiler.Text.Glyph
import TapeCompiler.Text.Style

/-!
# Plain styles

The styles of the program when its output is not a terminal (`Styled.plain`). Colours are
left out then; what remains of a style is that it lays its text out as a block: a tab
becomes four blanks, a carriage return before a line feed is dropped, and the lines of a
text of several lines are filled with blanks to the width of the widest.
-/

namespace TapeCompiler.Styled

/-- The text with its tabs spread and its line ends reduced to line feeds. -/
def settle : List Glyph → List Glyph
  | [] => []
  | .char '\t' :: rest =>
    .char ' ' :: .char ' ' :: .char ' ' :: .char ' ' :: settle rest
  | .char '\r' :: .char '\n' :: rest => .char '\n' :: settle rest
  | g :: rest => g :: settle rest

/-- The lines of a text, without their line feeds. -/
def lines (text : List Glyph) : List (List Glyph) :=
  text.splitOn (.char '\n')

/-- The number of terminal cells of a line. -/
def width (line : List Glyph) : Nat :=
  Column.width (line.map Glyph.toChar)

/-- A line followed by blanks up to `limit` terminal cells. -/
def fill (limit : Nat) (line : List Glyph) : List Glyph :=
  line ++ List.replicate (limit - width line) (.char ' ')

/-- The block that a text becomes: the text itself if it is one line, else its lines
    filled to the same width. -/
def block (text : List Glyph) : List Glyph :=
  match lines text with
  | [line] => line
  | rows =>
    let widest := (rows.map width).foldl max 0
    [Glyph.char '\n'].intercalate (rows.map (fill widest))

/-- A byte string as it leaves a style. -/
def bytes (text : Bytes) : Bytes :=
  Glyph.encode (block (settle (Glyph.decode text)))

/-- A byte string as it leaves a style that fills it to `limit` terminal cells. -/
def label (limit : Nat) (text : Bytes) : Bytes :=
  Glyph.encode (fill limit (settle (Glyph.decode text)))

/-- The styles of a program whose output is plain. -/
def plain : Styles where
  error := bytes
  success := bytes
  dim := bytes
  title := bytes
  label := label 9

end TapeCompiler.Styled
