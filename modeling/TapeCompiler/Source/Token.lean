import TapeCompiler.Source.Position

/-!
# Commands and tokens

The language has eight commands, each one ASCII character. Every other character
is a comment. A token is a command or the end of the input; a token stream that
was not scanned from text can also hold numbers that mean nothing.
-/

namespace TapeCompiler

/-- The eight commands. -/
inductive Command
  | right
  | left
  | add
  | sub
  | put
  | get
  | enter
  | leave
  deriving DecidableEq, Repr

namespace Command

/-- The character of a command. -/
def toChar : Command → Char
  | right => '>'
  | left => '<'
  | add => '+'
  | sub => '-'
  | put => '.'
  | get => ','
  | enter => '['
  | leave => ']'

/-- The command a character stands for, if any. -/
def ofChar? (c : Char) : Option Command :=
  match c with
  | '>' => some right
  | '<' => some left
  | '+' => some add
  | '-' => some sub
  | '.' => some put
  | ',' => some get
  | '[' => some enter
  | ']' => some leave
  | _ => none

/-- The command a code point stands for, if any. The number need not be a code
    point at all. -/
def ofCodePoint? (n : Int) : Option Command :=
  match n with
  | .ofNat n => if n < 0x80 then ofChar? (Char.ofNat n) else none
  | .negSucc _ => none

@[simp] theorem ofChar?_toChar (c : Command) : ofChar? c.toChar = some c := by
  cases c <;> rfl

end Command

/-- The unit of parsing. -/
inductive Token
  | eof
  | command (c : Command)
  | unknown (code : UInt64)
  deriving DecidableEq, Repr, Inhabited

namespace Token

/-- The token with a given number: zero is the end of the input, the next eight
    are the commands. -/
def ofCode (n : UInt64) : Token :=
  if n = 0 then eof
  else if n = 1 then command .right
  else if n = 2 then command .left
  else if n = 3 then command .add
  else if n = 4 then command .sub
  else if n = 5 then command .put
  else if n = 6 then command .get
  else if n = 7 then command .enter
  else if n = 8 then command .leave
  else unknown n

/-- The token as it stands in messages and listings. -/
def text : Token → String
  | eof => "EOF"
  | command c => String.singleton c.toChar
  | unknown n => s!"token({n})"

/-- Whether the token is the end of the input. -/
def isEof : Token → Bool
  | eof => true
  | _ => false

/-- Whether neighbouring copies of the token are merged into one statement. -/
def isRepeatable : Token → Bool
  | command .right | command .left | command .add | command .sub => true
  | _ => false

end Token

/-- A token and where it stands. -/
structure Located where
  token : Token
  pos : Pos
  deriving DecidableEq, Repr, Inhabited

end TapeCompiler
