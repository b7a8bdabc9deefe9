import TapeCompiler.Text.Bytes

/-!
# Refusals of the file system

An operation on a file names what was tried, on which path, and why it was
refused.
-/

namespace TapeCompiler

/-- Why the system refused an operation. -/
inductive Refusal where
  | noSuchFile
  | isDirectory
  | notDirectory
  | notEmpty
  | permission
  | other (text : String)
  deriving DecidableEq, Repr

/-- The wording of a refusal. -/
def Refusal.message : Refusal → String
  | noSuchFile => "no such file or directory"
  | isDirectory => "is a directory"
  | notDirectory => "not a directory"
  | notEmpty => "directory not empty"
  | permission => "permission denied"
  | other text => text

/-- What was tried on a file. -/
inductive FileOperation where
  | open
  | read
  | remove
  | execute
  deriving DecidableEq, Repr

/-- The word for an operation. -/
def FileOperation.name : FileOperation → String
  | .open => "open"
  | .read => "read"
  | .remove => "remove"
  | .execute => "fork/exec"

/-- A refused operation on a file. -/
structure FileError where
  operation : FileOperation
  path : Bytes
  cause : Refusal
  deriving DecidableEq, Repr

/-- The wording of the error. -/
def FileError.message (e : FileError) : Bytes :=
  e.operation.name ++ " " ++ e.path ++ ": " ++ e.cause.message

/-- What stands at a path. -/
inductive FileKind where
  | directory
  | file (executable : Bool)
  deriving DecidableEq, Repr

end TapeCompiler
