/-!
# Source positions

A position names a file, a line, a column and a byte offset. Lines and columns
count from one; a line of zero means that the position is unknown. Lines and
columns are 32-bit words and wrap around.
-/

namespace TapeCompiler

/-- A place in a source text. -/
structure Pos where
  /-- The name of the source, empty for text that is in no file. -/
  filename : String := ""
  /-- The line, from one; zero if the position is unknown. -/
  line : UInt32 := 0
  /-- The column, from one, counted in characters. -/
  col : UInt32 := 0
  /-- The byte offset, from zero. -/
  offset : Int := 0
  deriving DecidableEq, Repr, Inhabited

namespace Pos

/-- Whether the position is known. -/
def isKnown (p : Pos) : Bool :=
  p.line != 0

/-- The position as it stands in messages: `file:line:column`, without the file
    if there is none, and a dash for an unknown position. -/
def text (p : Pos) : String :=
  if p.isKnown then
    if p.filename = "" then s!"{p.line}:{p.col}" else s!"{p.filename}:{p.line}:{p.col}"
  else
    "-"

end Pos

end TapeCompiler
