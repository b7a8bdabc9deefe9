import TapeCompiler.Program.Parser
import TapeCompiler.Session.Command

/-!
# Reading entries

A session reads line by line. An entry ends with the first line after which it is a
command or can no longer be completed to a program by more text; while a loop is
open, it goes on. So an entry is a block of lines, and the first line of a block is
asked for with another prompt than the later ones.

The reader is a function of a script: a list of what the prompts give, after which
the input ends.
-/

namespace TapeCompiler.Session

/-- What one prompt gives: a line, or the news that the entry is to be dropped. -/
inductive Answer where
  | line (text : Bytes)
  | interrupt
  deriving DecidableEq, Repr

/-- The prompt for the first line of an entry. -/
def mainPrompt : String := "bfc> "

/-- The prompt for a later line of an entry. -/
def continuationPrompt : String := "...> "

/-- The prompt to show when `pending` is what has been read of the entry. -/
def promptFor (pending : Bytes) : String :=
  if pending.isEmpty then mainPrompt else continuationPrompt

/-- The text of an entry after one more line. -/
def extend (pending line : Bytes) : Bytes :=
  if pending.isEmpty then line else pending ++ '\n'.toUInt8 :: line

/-- Whether a text fails to be a program only because more could follow. -/
def isIncomplete (text : Bytes) : Bool :=
  match Program.parse (Source.ofBytes "" text) with
  | .error e => e.isIncomplete
  | .ok _ => false

/-- Whether an entry ends here: it is a command, or no open loop asks for more. -/
def isFinished (text : Bytes) : Bool :=
  isCommand text || !isIncomplete text

/-- What reading one entry gives. -/
structure Reading where
  /-- The entry. It is empty for an interrupt, and absent at the end of the input. -/
  entry? : Option Bytes
  /-- The prompts shown, in order. -/
  prompts : List String
  /-- The script that is left. -/
  rest : List Answer
  deriving DecidableEq, Repr

/-- Reads one entry from a script, with `pending` already read and `prompts` shown
    for it, the last one first. -/
def readOnto (pending : Bytes) (prompts : List String) : List Answer → Reading
  | [] => ⟨none, (promptFor pending :: prompts).reverse, []⟩
  | .interrupt :: rest => ⟨some [], (promptFor pending :: prompts).reverse, rest⟩
  | .line text :: rest =>
    let shown := promptFor pending :: prompts
    let entry := extend pending text
    if isFinished entry then ⟨some entry, shown.reverse, rest⟩ else readOnto entry shown rest

/-- Reads one entry from a script. -/
def read (script : List Answer) : Reading :=
  readOnto [] [] script

end TapeCompiler.Session
