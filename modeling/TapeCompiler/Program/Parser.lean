import TapeCompiler.Program.Basic
import TapeCompiler.Source.Scanner

/-!
# Parsing

The parser reads tokens from left to right and keeps the statement lists that are
still open: the list of the innermost open loop and, for each loop around it, the
statements before that loop. A bracket opens or closes one of these lists; any
other command goes to the end of the innermost one, where it joins the leaf
before it if that is a run of the same step.

Text can be wrong in two ways. A closing bracket may have no partner, which is
reported where it stands, and a loop may still be open at the end, which is
reported at the opening bracket of the innermost such loop. A token stream that
was not scanned from text may in addition hold a token that means nothing, or stop
without an end-of-input token; both are faults of whoever made the stream.

  * `Parser.parse` parses from the current token on. The parser can be used again
    afterwards: it stays on the token that ended the parse.
  * `Program.parse` parses a source.
-/

namespace TapeCompiler

/-- The kinds of syntax error, with room for numbers that name no kind. -/
inductive SyntaxErrorKind
  | unexpectedClose
  | unterminatedLoop
  | other (code : UInt8)
  deriving DecidableEq, Repr

namespace SyntaxErrorKind

/-- The kind with a given number. -/
def ofCode (n : UInt8) : SyntaxErrorKind :=
  if n = 1 then unexpectedClose else if n = 2 then unterminatedLoop else other n

/-- The kind as it stands in messages. -/
def text : SyntaxErrorKind → String
  | unexpectedClose => "unexpected closing bracket"
  | unterminatedLoop => "unterminated loop"
  | other n => s!"ErrorKind({n})"

end SyntaxErrorKind

/-- A place where a source is not a program, and why. -/
structure SyntaxError where
  pos : Pos
  kind : SyntaxErrorKind
  explanation : String
  deriving DecidableEq, Repr

namespace SyntaxError

/-- The wording of the error. -/
def message (e : SyntaxError) : String :=
  s!"{e.pos.text}: {e.explanation}"

/-- Whether more text could still make the source a program. -/
def isIncomplete (e : SyntaxError) : Bool :=
  e.kind = .unterminatedLoop

/-- A closing bracket at `pos` without a partner. -/
def unexpectedClose (pos : Pos) : SyntaxError :=
  ⟨pos, .unexpectedClose, "unexpected closing bracket: no loop is open"⟩

/-- A loop opened at `pos` that is never closed. -/
def unterminatedLoop (pos : Pos) : SyntaxError :=
  ⟨pos, .unterminatedLoop, "unterminated loop: missing closing bracket"⟩

end SyntaxError

/-- What can be wrong with a token stream that was not scanned from text. -/
inductive StreamFault
  | exhausted
  | unexpectedToken (t : Located)
  deriving DecidableEq, Repr

/-- The wording of the fault. -/
def StreamFault.message : StreamFault → String
  | exhausted => "syntax: ran out of tokens"
  | unexpectedToken t => s!"syntax: {t.pos.text}: unexpected token {t.token.text}"

/-- Why there is no program. -/
inductive ParseError
  | unreadable (cause : String)
  | malformed (e : SyntaxError)
  | fault (f : StreamFault)
  deriving DecidableEq, Repr

namespace ParseError

/-- The wording of the error. -/
def message : ParseError → String
  | unreadable cause => s!"reading source: {cause}"
  | malformed e => e.message
  | fault f => f.message

/-- Whether more text could still make the source a program. -/
def isIncomplete : ParseError → Bool
  | malformed e => e.isIncomplete
  | _ => false

end ParseError

namespace Parser

/-- An open loop: its opening bracket, and the statements before it, last first. -/
structure OpenLoop where
  pos : Pos
  before : List Stmt
  deriving Repr

/-- The statement lists that are still open, the innermost first. -/
structure Frames where
  /-- The open loops, the innermost first. -/
  loops : List OpenLoop := []
  /-- The statements of the innermost list, last first. -/
  body : List Stmt := []
  deriving Repr

namespace Frames

/-- Put a statement at the end of the innermost list. -/
def push (f : Frames) (s : Stmt) : Frames :=
  { f with body := s :: f.body }

/-- Put one step at the end of the innermost list, where it joins a run of the
    same step. -/
def pushStep (f : Frames) (step : Step) (pos : Pos) : Frames :=
  match f.body with
  | .repeated step' pos' n :: before =>
    if step' = step then { f with body := .repeated step' pos' (n + 1) :: before }
    else f.push (.repeated step pos 1)
  | _ => f.push (.repeated step pos 1)

/-- Open a loop. -/
def enter (f : Frames) (pos : Pos) : Frames :=
  { loops := ⟨pos, f.body⟩ :: f.loops, body := [] }

/-- What a token does to the open lists: they change and parsing goes on, or it
    ends. -/
inductive Move
  | more (frames : Frames)
  | done (body : Except ParseError (List Stmt))

/-- Take one token. -/
def take (f : Frames) (t : Located) : Move :=
  match t.token with
  | .command .right => .more (f.pushStep .moveRight t.pos)
  | .command .left => .more (f.pushStep .moveLeft t.pos)
  | .command .add => .more (f.pushStep .increment t.pos)
  | .command .sub => .more (f.pushStep .decrement t.pos)
  | .command .put => .more (f.push (.printChar t.pos))
  | .command .get => .more (f.push (.readChar t.pos))
  | .command .enter => .more (f.enter t.pos)
  | .command .leave =>
    match f.loops with
    | [] => .done (.error (.malformed (.unexpectedClose t.pos)))
    | l :: loops =>
      .more { loops, body := .loop l.pos f.body.reverse t.pos :: l.before }
  | .eof =>
    match f.loops with
    | [] => .done (.ok f.body.reverse)
    | l :: _ => .done (.error (.malformed (.unterminatedLoop l.pos)))
  | .unknown _ => .done (.error (.fault (.unexpectedToken t)))

end Frames

/-- How a parse went: the statements or the error, the token that ended it and the
    tokens not read. -/
structure Run where
  body : Except ParseError (List Stmt)
  current : Located
  rest : List Located

/-- Parse from the token `current` on. -/
def run (f : Frames) (current : Located) : List Located → Run
  | [] =>
    match f.take current with
    | .done body => ⟨body, current, []⟩
    | .more _ => ⟨.error (.fault .exhausted), current, []⟩
  | t :: rest =>
    match f.take current with
    | .done body => ⟨body, current, t :: rest⟩
    | .more f => run f t rest

end Parser

/-- A token stream being parsed. -/
structure Parser where
  /-- The token the parser stands on. -/
  current : Located
  /-- The tokens after it. -/
  rest : List Located
  /-- Why the source could not be read. -/
  failure? : Option String := none
  /-- The syntax errors reported so far, in order. -/
  reported : List SyntaxError := []

namespace Parser

/-- A parser on the first token of a stream. -/
def ofTokens : List Located → Except StreamFault Parser
  | [] => .error .exhausted
  | current :: rest => .ok { current, rest }

/-- A parser on the first token of a source. -/
def ofSource (s : Source) : Parser :=
  match s.tokens with
  | [] => { current := default, rest := [], failure? := s.failure? }
  | current :: rest => { current, rest, failure? := s.failure? }

/-- Parse a program from the current token on. -/
def parse (p : Parser) : Except ParseError Program × Parser :=
  match p.failure? with
  | some cause => (.error (.unreadable cause), p)
  | none =>
    let r := run {} p.current p.rest
    let p' := { p with current := r.current, rest := r.rest }
    match r.body with
    | .ok body => (.ok ⟨p.current.pos, body⟩, p')
    | .error (.malformed e) => (.error (.malformed e), { p' with reported := p.reported ++ [e] })
    | .error e => (.error e, p')

end Parser

/-- The program a source holds. -/
def Program.parse (s : Source) : Except ParseError Program :=
  (Parser.ofSource s).parse.1

end TapeCompiler
