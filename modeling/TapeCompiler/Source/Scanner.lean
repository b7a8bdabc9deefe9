import TapeCompiler.Source.Reader

/-!
# The scanner

A `Scanner` hands out the tokens of a source one at a time, with one token of
look-ahead. A source is a file name and either its text or the reason why it
could not be read; a source that could not be read scans like an empty one.

After the end of the input has been handed out there is nothing more: `next` says
so, and the current token stays the end of the input.
-/

namespace TapeCompiler

/-- A named source text, or why there is none. -/
structure Source where
  filename : String := ""
  content : Except String Bytes
  deriving Repr

namespace Source

/-- A source that holds the given text. -/
def ofBytes (filename : String) (text : Bytes) : Source :=
  ⟨filename, .ok text⟩

/-- The text to scan: empty if the source could not be read. -/
def text (s : Source) : Bytes :=
  match s.content with
  | .ok text => text
  | .error _ => []

/-- Why the source could not be read. -/
def failure? (s : Source) : Option String :=
  match s.content with
  | .ok _ => none
  | .error message => some message

/-- A reader on the first character of the source. -/
def reader (s : Source) : Reader :=
  Reader.start s.filename s.text

/-- All tokens of the source, the end of the input last. -/
def tokens (s : Source) : List Located :=
  s.reader.tokens

end Source

/-- A source being scanned. -/
structure Scanner where
  reader : Reader
  failure? : Option String
  /-- The token handed out last; before the first one, the end of an input that
      is nowhere. -/
  current : Located := ⟨.eof, {}⟩
  /-- The token looked at but not handed out yet. -/
  ahead : Option Located := none
  /-- Whether the end of the input has been handed out. -/
  finished : Bool := false
  deriving Repr

namespace Scanner

/-- A scanner before the first token of a source. -/
def ofSource (s : Source) : Scanner :=
  { reader := s.reader, failure? := s.failure? }

/-- Hand out the next token. The answer is `false` when there is none. -/
def next (s : Scanner) : Bool × Scanner :=
  if s.finished then
    (false, s)
  else
    match s.ahead with
    | some t => (true, { s with current := t, ahead := none, finished := t.token.isEof })
    | none =>
      let (t, reader) := s.reader.scan
      (true, { s with reader, current := t, finished := t.token.isEof })

/-- The token that `next` would hand out. -/
def peek (s : Scanner) : Token × Scanner :=
  if s.finished then
    (.eof, s)
  else
    match s.ahead with
    | some t => (t.token, s)
    | none =>
      let (t, reader) := s.reader.scan
      (t.token, { s with reader, ahead := some t })

end Scanner

end TapeCompiler
