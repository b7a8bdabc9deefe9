import TapeCompiler.File.Error

/-!
# The host

What the compiler needs of the system it runs on: an environment, files, other
programs, streams and a clock. Everything else is written against this interface,
so that it runs on a real system and on a model of one (`Host.World`) alike.
-/

namespace TapeCompiler

/-- What is known of a program that has run. Its code is -1 if a signal stopped it. -/
structure ProgramResult where
  code : Int
  stdout : Bytes := []
  stderr : Bytes := []
  deriving DecidableEq, Repr

/-- A system on which the compiler can run. -/
class Host (m : Type → Type) where
  /-- The value of an environment variable. -/
  getEnv : Bytes → m (Option Bytes)
  /-- A text with the environment variables in it replaced by their values. -/
  expandEnv : Bytes → m Bytes
  /-- What stands at a path. -/
  stat : Bytes → m (Except Refusal FileKind)
  /-- The content of a file. The error says whether opening or reading failed. -/
  readFile : Bytes → m (Except FileError Bytes)
  /-- Makes a file with this content, in the place of an older one. -/
  writeFile : Bytes → Bytes → m (Except FileError Unit)
  /-- Removes a file or an empty directory. -/
  remove : Bytes → m (Except FileError Unit)
  /-- Runs the program at a path with these arguments. -/
  execute : Bytes → List Bytes → m (Except FileError ProgramResult)
  /-- Writes to the standard output. -/
  print : Bytes → m Unit
  /-- Writes to the standard error stream. -/
  printError : Bytes → m Unit
  /-- Feeds the lines of the standard input to a machine until it stops. The machine
      gets each line without its line end, and at last the news that the input has
      ended. -/
  feedLines : {σ : Type} → σ → (σ → Option Bytes → m (Option σ)) → m Unit
  /-- The time in nanoseconds since 1970. -/
  now : m Nat
  /-- Random identifiers, one for each number, that were never handed out before. -/
  identifiers : m (Nat → String)

/-- The time in seconds since 1970. -/
def Host.seconds {m : Type → Type} [Monad m] [Host m] : m Int := do
  let nanoseconds ← Host.now
  return (nanoseconds / 1000000000 : Nat)

end TapeCompiler
