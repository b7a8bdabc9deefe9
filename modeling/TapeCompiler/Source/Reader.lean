import TapeCompiler.Source.Token
import TapeCompiler.Text.Glyph

/-!
# The character reader

A `Reader` stands on one character of a source text and knows its line, column
and byte offset. `Reader.advance` moves to the next character. A line feed ends
its line, so the line goes up when the reader moves *off* one. At the end of the
text there is no character; moving on from there only counts up the column.

  * `Reader.scan` finds the next token and leaves the reader behind it.
  * `Reader.tokens` lists all tokens, the end of the input last.
-/

namespace TapeCompiler

/-- A place in a source text, with the text after it. -/
structure Reader where
  filename : String
  /-- The glyphs after the current one. -/
  rest : List Glyph
  /-- The current character, `none` at the end of the text. -/
  char : Option Char
  line : UInt32
  col : UInt32
  /-- The byte offset of the current character. -/
  offset : Nat
  /-- The byte offset after the current character. -/
  next : Nat
  deriving Repr

namespace Reader

/-- Move to the next character. -/
def advance (r : Reader) : Reader :=
  let line := if r.char = some '\n' then r.line + 1 else r.line
  let col := if r.char = some '\n' then 1 else r.col + 1
  match r.rest with
  | [] => { r with char := none, line, col, offset := r.next }
  | g :: rest =>
    { r with rest, char := some g.toChar, line, col, offset := r.next, next := r.next + g.width }

/-- A reader on the first character of a text. -/
def start (filename : String) (text : Bytes) : Reader :=
  advance {
    filename, rest := Glyph.decode text, char := none, line := 1, col := 0, offset := 0, next := 0 }

/-- The position of the current character. -/
def pos (r : Reader) : Pos :=
  { filename := r.filename, line := r.line, col := r.col, offset := r.offset }

/-- Find the next token from `r` on. The list is `r.rest`; recursion follows it. -/
def scanAlong : List Glyph → Reader → Located × Reader
  | ahead, r =>
    match r.char with
    | none => (⟨.eof, r.pos⟩, r)
    | some c =>
      match Command.ofChar? c with
      | some cmd => (⟨.command cmd, r.pos⟩, r.advance)
      | none =>
        match ahead with
        | [] => (⟨.eof, r.advance.pos⟩, r.advance)
        | _ :: ahead => scanAlong ahead r.advance

/-- The next token, and the reader behind it. -/
def scan (r : Reader) : Located × Reader :=
  scanAlong r.rest r

/-- The tokens from `r` on, last first, in front of `acc`. The list is `r.rest`;
    recursion follows it. -/
def tokensAlong (acc : List Located) : List Glyph → Reader → List Located
  | ahead, r =>
    match r.char with
    | none => ⟨.eof, r.pos⟩ :: acc
    | some c =>
      let acc :=
        match Command.ofChar? c with
        | some cmd => ⟨.command cmd, r.pos⟩ :: acc
        | none => acc
      match ahead with
      | [] => ⟨.eof, r.advance.pos⟩ :: acc
      | _ :: ahead => tokensAlong acc ahead r.advance

/-- All tokens from `r` on, the end of the input last. -/
def tokens (r : Reader) : List Located :=
  (tokensAlong [] r.rest r).reverse

end Reader

end TapeCompiler
