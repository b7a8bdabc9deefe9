import TapeCompiler.CommandLine.Compile
import TapeCompiler.Text.Ellipsis

/-!
# Checking the tools

The doctor looks for the programs of the toolchain and asks each for its version.
-/

namespace TapeCompiler.CommandLine

/-- What is known of a tool: where it is, if it was found, and the first line that it says
    about its version. -/
structure ToolStatus where
  name : Bytes
  path? : Option Bytes
  version : Bytes := []
  deriving DecidableEq, Repr

/-- The first line of what a tool says, shortened. -/
def banner (stdout : Bytes) : Bytes :=
  let line := Blank.trim (stdout.takeWhile (· != '\n'.toUInt8))
  match Ellipsis.shorten line 60 with
  | .ok text => text
  | .error _ => line

/-- The line that tells about a tool. -/
def ToolStatus.line (styles : Styles) (s : ToolStatus) : Bytes :=
  let label := styles.label (s.name ++ ":")
  match s.path? with
  | none => label ++ s.version ++ styles.error " ✗ (not found)" ++ "\n"
  | some path =>
    let version := if s.version.isEmpty then path else s.version
    label ++ version ++ styles.success " ✓" ++ "\n"

variable {m : Type → Type} [Monad m] [Host m]

/-- Looks for a tool and asks for its version. -/
def probe (name : Bytes) : m ToolStatus := do
  match ← Search.find name with
  | .error _ => return { name, path? := none }
  | .ok path =>
    match ← Host.execute path ["--version"] with
    | .error _ => return { name, path? := some path }
    | .ok result =>
      let version := if result.code = 0 then banner result.stdout else []
      return { name, path? := some path, version }

/-- Checks the tools of a toolchain. -/
def checkTools (styles : Styles) (t : Toolchain) : m (Except RunError Unit) := do
  Host.print (styles.title "bfc Toolchain Doctor" ++ "\n====================\n\n")
  let assembler ← probe t.assembler
  let cc ← probe t.cc
  Host.print (assembler.line styles ++ cc.line styles ++ "\n")
  if assembler.path?.isSome && cc.path?.isSome then
    Host.print "All required tools available!\n"
    return .ok ()
  else
    return .error .missingTools

/-- Checks the tools that the settings name. -/
def doctor (decoders : Settings.Decoders) (styles : Styles) (o : Options) :
    m (Except RunError Unit) := do
  match ← settle decoders o with
  | .error e => return .error e
  | .ok s => checkTools styles s.toolchain

end TapeCompiler.CommandLine
