import TapeCompiler.Program.Basic
import TapeCompiler.Target.Label
import TapeCompiler.Text.Quoted

/-!
# Targets

A target is an output language. It says which lines stand for each kind of
statement; how counts and loops are lowered to them is the same for all targets
and is said in `Target.Lowering`.
-/

namespace TapeCompiler

/-- A piece of generated text that is written in one go: some lines. -/
abbrev Chunk := List String

/-- The text of a chunk, without the line feed after it. -/
def Chunk.text (c : Chunk) : String :=
  String.intercalate "\n" c

/-- An output language. -/
structure Target where
  /-- The name on the command line. -/
  name : String
  /-- The extension of generated files, with the dot. -/
  extension : String
  prologue : Chunk
  epilogue : Chunk
  /-- A step done a number of times. -/
  step : Step → Int → Chunk
  printChar : Chunk
  readChar : Chunk
  /-- What stands before the body of a loop. -/
  loopEnter : LoopLabels → Chunk
  /-- What stands after the body of a loop. -/
  loopExit : LoopLabels → Chunk

end TapeCompiler
