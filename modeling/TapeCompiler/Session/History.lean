import TapeCompiler.Session.Line
import TapeCompiler.Text.Glyph

/-!
# The history of a session

The entries of sessions are kept in a file, one on a line, up to a limit. An entry of
several lines is kept on one, and an entry equal to the one before is not kept again.
-/

namespace TapeCompiler.Session

/-- The entries of earlier sessions and of this one, the oldest first. -/
structure History where
  entries : List Bytes := []
  deriving DecidableEq, Repr

namespace History

/-- How many entries are kept. -/
def limit : Nat := 1000

/-- Adds an entry at the end; the oldest one gives way beyond the limit. -/
def push (h : History) (entry : Bytes) : History :=
  let entries := h.entries ++ [entry]
  ⟨entries.drop (entries.length - limit)⟩

/-- The pieces of a file that can be entries: up to the first that is only part of a line
    or is not text. -/
def sound (pieces : List LinePiece) : List Bytes :=
  (pieces.takeWhile fun p => !p.continues && (Glyph.wellFormed? p.text).isSome).map
    LinePiece.text

/-- The history that a file holds. -/
def ofFile (content : Bytes) : History :=
  let entries := sound (pieces content)
  ⟨entries.drop (entries.length - limit)⟩

/-- An entry on one line. -/
def flatten (entry : Bytes) : Bytes :=
  entry.map fun b => if b = '\n'.toUInt8 then ' '.toUInt8 else b

/-- Keeps an entry, unless it is the same as the last. -/
def record (h : History) (entry : Bytes) : History :=
  let line := flatten entry
  if h.entries.getLast? = some line then h else h.push line

/-- The content of the file for a history. -/
def toFile (h : History) : Bytes :=
  h.entries.flatMap fun entry => entry ++ ['\n'.toUInt8]

end History

end TapeCompiler.Session
