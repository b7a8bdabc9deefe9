import TapeCompiler.Source.Token

/-!
# Programs as trees

A program is a list of statements. A statement is a leaf, which moves the data
pointer, changes the current cell or does input or output, or a loop, which holds
a list of statements of its own. Neighbouring copies of a movement or of a cell
change are one leaf with a count.

Trees can also be put together by hand. Such a tree may have gaps (`Stmt.absent`)
and statements of a kind the compiler does not know (`Stmt.foreign`); the views of
a tree show both, and code generation refuses them.
-/

namespace TapeCompiler

/-- What a counted leaf does once per count. -/
inductive Step
  | moveRight
  | moveLeft
  | increment
  | decrement
  deriving DecidableEq, Repr

namespace Step

/-- The command that a step merges. -/
def command : Step → Command
  | moveRight => .right
  | moveLeft => .left
  | increment => .add
  | decrement => .sub

/-- The name of the step's leaf. -/
def name : Step → String
  | moveRight => "MoveRight"
  | moveLeft => "MoveLeft"
  | increment => "Increment"
  | decrement => "Decrement"

end Step

/-- The name of a kind of statement that the compiler does not know: that of its type,
    with the package it comes from in front of a dot. None of the characters that set the
    nodes of a compact form apart stands in it. -/
@[ext] structure ForeignName where
  text : String
  qualified : '.' ∈ text.toList
  plain : text.toList.all fun c => !List.contains ['(', '[', ',', ' ', ']', ')'] c
  deriving DecidableEq, Repr

/-- A statement. The position of a leaf is that of its first command, that of a
    loop is its opening bracket. -/
inductive Stmt
  | repeated (step : Step) (pos : Pos) (count : Nat)
  | printChar (pos : Pos)
  | readChar (pos : Pos)
  | loop (pos : Pos) (body : List Stmt) (close : Pos)
  | foreign (kind : ForeignName) (pos : Pos)
  | absent
  deriving Inhabited, Repr

/-- Refusal of a count that is not positive. -/
inductive InvalidCount
  | mk
  deriving DecidableEq, Repr

/-- The wording of the refusal. -/
def InvalidCount.message (_ : InvalidCount) : String :=
  "syntax: repeat count must be positive"

namespace Stmt

/-- A counted leaf; the count must be positive. -/
def repeated? (step : Step) (pos : Pos) (count : Int) : Except InvalidCount Stmt :=
  if count < 1 then .error .mk else .ok (.repeated step pos count.toNat)

/-- The name of the statement's kind. A foreign statement goes by the name of its type. -/
def name : Stmt → String
  | repeated step _ _ => step.name
  | printChar _ => "PrintChar"
  | readChar _ => "ReadChar"
  | loop .. => "Loop"
  | foreign kind _ => kind.text
  | absent => "<nil>"

/-- Where the statement starts. -/
def pos : Stmt → Pos
  | repeated _ pos _ | printChar pos | readChar pos | loop pos _ _ | foreign _ pos => pos
  | absent => {}

end Stmt

/-- A whole program. Its position is that of the first token. -/
structure Program where
  pos : Pos
  body : List Stmt
  deriving Inhabited, Repr

/-- Any part of a tree: the whole program or one statement. -/
inductive Node
  | root (program : Program)
  | stmt (s : Stmt)
  deriving Inhabited, Repr

namespace Node

/-- The name of the node's kind. -/
def name : Node → String
  | root _ => "Root"
  | stmt s => s.name

end Node

end TapeCompiler
