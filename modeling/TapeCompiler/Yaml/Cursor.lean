/-!
# A place in a YAML text

A cursor is what is left of the text together with the line, the column and the
number of characters before it. Line ends come in five forms; a carriage return
with the line feed after it is one of them.
-/

namespace TapeCompiler.Yaml

/-- Where something stands: line and column from zero, and the characters before
    it. -/
structure Mark where
  line : Nat := 0
  col : Nat := 0
  index : Nat := 0
  deriving DecidableEq, Repr

namespace Mark

/-- The place `n` characters further on the same line. -/
def right (m : Mark) (n : Nat := 1) : Mark :=
  { m with col := m.col + n, index := m.index + n }

/-- The start of the next line, after a line end of `n` characters. -/
def down (m : Mark) (n : Nat := 1) : Mark :=
  { line := m.line + 1, col := 0, index := m.index + n }

end Mark

/-- What is left of a text, and where it stands. -/
structure Cursor where
  rest : List Char
  mark : Mark := {}
  deriving Repr

/-- Whether a character ends a line. -/
def isBreak (c : Char) : Bool :=
  c = '\n' || c = '\r' || c = '\u0085' || c = '\u2028' || c = '\u2029'

/-- Whether a character is blank within a line. -/
def isGap (c : Char) : Bool := c = ' ' || c = '\t'

/-- How a line end is read: the two separators stay, all others become a line
    feed. -/
def breakChar (c : Char) : Char :=
  if c = '\u2028' || c = '\u2029' then c else '\n'

/-- Whether a text starts with a blank or a line end, or is at its end. -/
def atGap (text : List Char) : Bool :=
  match text with
  | [] => true
  | c :: _ => isGap c || isBreak c

/-- Whether a text is at the end of a line or at its own end. -/
def atLineEnd (text : List Char) : Bool :=
  match text with
  | [] => true
  | c :: _ => isBreak c

/-- Whether a text starts with a mark that starts or ends a document. -/
def atDocumentMark (text : List Char) : Bool :=
  match text with
  | '-' :: '-' :: '-' :: rest => atGap rest
  | '.' :: '.' :: '.' :: rest => atGap rest
  | _ => false

/-- Whether a character can stand in the name of an anchor, a handle or a
    directive. -/
def isWordChar (c : Char) : Bool :=
  c.isAlphanum || c = '_' || c = '-'

namespace Cursor

/-- The cursor after `n` characters of the same line. -/
def skip (c : Cursor) (n : Nat := 1) : Cursor :=
  ⟨c.rest.drop n, c.mark.right n⟩

/-- The cursor after the characters that `p` accepts, none of which ends a line. -/
def skipWhile (c : Cursor) (p : Char → Bool) : Cursor :=
  c.skip (c.rest.takeWhile p).length

/-- The cursor after a line end. -/
def skipBreak (c : Cursor) : Cursor :=
  match c.rest with
  | '\r' :: '\n' :: rest => ⟨rest, c.mark.down 2⟩
  | _ :: rest => ⟨rest, c.mark.down⟩
  | [] => c

/-- The cursor at the end of its line. -/
def skipToLineEnd (c : Cursor) : Cursor :=
  c.skipWhile (!isBreak ·)

/-- The character that a line end is read as. -/
def breakText (c : Cursor) : List Char :=
  (c.rest.head?.map breakChar).toList

end Cursor

end TapeCompiler.Yaml
