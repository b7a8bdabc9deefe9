import TapeCompiler.File.Path
import TapeCompiler.Host.Basic

/-!
# Finding programs

A program named without a slash is searched in the directories of `PATH`; the first
executable file of that name counts. One that is found by way of a relative directory
is refused. A name with a slash stands for itself.
-/

namespace TapeCompiler

/-- Why a program cannot be found. -/
inductive SearchFailure where
  | notFound
  /-- It was found in a directory that `PATH` gives relative to the working directory. -/
  | relative (path : Bytes)
  /-- There is no file to execute at the path that the name is. -/
  | refused (cause : Refusal)
  deriving DecidableEq, Repr

namespace Search

variable {m : Type → Type} [Monad m] [Host m]

/-- The directories of `PATH`. An empty one is the working directory. -/
def directories (path : Bytes) : List Bytes :=
  if path.isEmpty then []
  else (path.splitOn ':'.toUInt8).map fun d => if d.isEmpty then [Path.dot] else d

/-- Why there is no executable file at a path, if there is none. -/
def refusal? (path : Bytes) : m (Option Refusal) := do
  match ← Host.stat path with
  | .error e => return some e
  | .ok .directory => return some .isDirectory
  | .ok (.file false) => return some .permission
  | .ok (.file true) => return none

/-- Looks for a file in directories, in order. -/
def inDirectories (name : Bytes) : List Bytes → m (Except SearchFailure Bytes)
  | [] => return .error .notFound
  | d :: rest => do
    let path := Path.join [d, name]
    match ← refusal? path with
    | some _ => inDirectories name rest
    | none => return if Path.isRooted path then .ok path else .error (.relative path)

/-- The path of the program with the given name. -/
def find (name : Bytes) : m (Except SearchFailure Bytes) := do
  if name.contains Path.slash then
    match ← refusal? name with
    | some cause => return .error (.refused cause)
    | none => return .ok name
  else
    let path ← Host.getEnv "PATH"
    inDirectories name (directories (path.getD []))

end Search

end TapeCompiler
