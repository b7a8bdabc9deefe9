import TapeCompiler.Text.Bytes

/-!
# Input lines

Lines end in a line feed, before which one carriage return is dropped; the last line
needs no end. A line is read through a buffer of 4096 bytes: a longer one comes in
pieces of that size, each as a line of its own. A piece does not end in a carriage
return, which is left for the next one.
-/

namespace TapeCompiler.Session

/-- The size of the buffer through which lines are read. -/
def bufferSize : Nat := 4096

/-- One line of the input, or one piece of it. -/
structure LinePiece where
  text : Bytes
  /-- Whether the line goes on. -/
  continues : Bool
  deriving DecidableEq, Repr

/-- The piece to be made of a full buffer, and what is left in the buffer. The bytes
    stand last first. -/
def fullPiece (buffer : Bytes) : LinePiece × Bytes :=
  match buffer with
  | b :: rest =>
    if b = '\r'.toUInt8 then (⟨rest.reverse, true⟩, [b]) else (⟨buffer.reverse, true⟩, [])
  | [] => (⟨[], true⟩, [])

/-- A line that has ended, without its carriage return. The bytes stand last first. -/
def endedLine (buffer : Bytes) : Bytes :=
  match buffer with
  | b :: rest => if b = '\r'.toUInt8 then rest.reverse else buffer.reverse
  | [] => []

/-- The pieces of an input. `buffer` holds the bytes read, the last one first, and
    `count` their number. -/
def piecesOnto (acc : List LinePiece) (buffer : Bytes) (count : Nat) :
    Bytes → List LinePiece
  | [] => (if buffer.isEmpty then acc else ⟨buffer.reverse, false⟩ :: acc).reverse
  | b :: rest =>
    if b = '\n'.toUInt8 then
      piecesOnto (⟨endedLine buffer, false⟩ :: acc) [] 0 rest
    else if count + 1 = bufferSize then
      let (piece, left) := fullPiece (b :: buffer)
      piecesOnto (piece :: acc) left left.length rest
    else
      piecesOnto acc (b :: buffer) (count + 1) rest

/-- The pieces of an input. -/
def pieces (input : Bytes) : List LinePiece :=
  piecesOnto [] [] 0 input

/-- The lines of an input, a long line cut into its pieces. -/
def inputLines (input : Bytes) : List Bytes :=
  (pieces input).map LinePiece.text

end TapeCompiler.Session
