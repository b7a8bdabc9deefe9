import TapeCompiler.Text.Blank
import TapeCompiler.Text.Letter

/-!
# Session commands

An entry of a session is program text unless its first word is one of six words
that start with a colon. The words are not case-sensitive, and further words beyond
the first argument are ignored.
-/

namespace TapeCompiler.Session

/-- What a session can be told to do. -/
inductive Command where
  | quit
  | help
  /-- Show trees instead of code, or the other way round. -/
  | ast
  /-- Select the target with this name. -/
  | target (name : Bytes)
  /-- Switch optimization; the argument says how. -/
  | optimize (how : Bytes)
  deriving DecidableEq, Repr

/-- The command with the given word and first argument, if the word is known. -/
def Command.ofWord? (word arg : Bytes) : Option Command :=
  if Letter.isWord ":quit" word || Letter.isWord ":q" word then some .quit
  else if Letter.isWord ":help" word then some .help
  else if Letter.isWord ":ast" word then some .ast
  else if Letter.isWord ":target" word then some (.target arg)
  else if Letter.isWord ":opt" word then some (.optimize arg)
  else none

/-- The command that an entry is, unless it is program text. -/
def Command.ofEntry? (entry : Bytes) : Option Command :=
  match Blank.words entry with
  | [] => none
  | word :: args => Command.ofWord? word (args.headD [])

/-- Whether an entry is a command. -/
def isCommand (entry : Bytes) : Bool :=
  (Command.ofEntry? entry).isSome

end TapeCompiler.Session
