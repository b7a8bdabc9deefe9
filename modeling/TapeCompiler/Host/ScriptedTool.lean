import TapeCompiler.Host.World

/-!
# Scripted tools

A program for a world that follows a short script in place of an assembler or a
compiler: it tells its version, fails in a given way, or writes what it was asked to
make.
-/

namespace TapeCompiler

/-- The script of a tool. -/
structure ScriptedTool where
  name : Bytes
  /-- What it says about its version, and the code it then ends with. -/
  version : Bytes := []
  versionCode : Int := 0
  /-- What it writes to its error stream. -/
  stderr : Bytes := []
  /-- Whether it is stopped by a signal. -/
  signalled : Bool := false
  /-- The code it ends with, if it is not zero. -/
  code : Int := 0
  /-- Whether it makes a directory with another one in it, in place of a file. -/
  makesDirectory : Bool := false
  deriving DecidableEq, Repr

namespace ScriptedTool

/-- The place that a path leads to. -/
def placeOf (t : FileTree) (cwd : Place) (path : Bytes) : Place :=
  match t.lastStep cwd path with
  | .ok s => FileTree.descend s.parent s.name
  | .error _ => cwd ++ [path]

/-- What the tool does. The third argument names what it makes. -/
def behaviour (tool : ScriptedTool) : ProgramBehaviour := fun files cwd args =>
  let output := args.getD 2 []
  if args.head? = some (Bytes.ofString "--version") then
    (files, { code := tool.versionCode, stdout := tool.version })
  else if tool.signalled then
    (files, { code := -1, stderr := tool.stderr })
  else if tool.code ≠ 0 then
    (files, { code := tool.code, stderr := tool.stderr })
  else if tool.makesDirectory then
    let place := placeOf files cwd output ++ [Bytes.ofString "sub"]
    (files.makeDirectories [] place, { code := 0, stderr := tool.stderr })
  else
    match files.writeFile cwd output ("built by " ++ tool.name ++ "\n") with
    | .ok files => (files, { code := 0, stderr := tool.stderr })
    | .error _ =>
      (files, { code := 2, stderr := tool.stderr ++ "cannot write " ++ output ++ "\n" })

end ScriptedTool

end TapeCompiler
