import TapeCompiler.Text.Style

/-!
# The toolchain

An executable is made by external programs: an assembler and a C compiler, which
also links. A program that ran and failed is reported with its exit code and what
it wrote to its error stream.
-/

namespace TapeCompiler

/-- The external programs and the flags that each gets after the other arguments. -/
structure Toolchain where
  assembler : Bytes
  cc : Bytes
  asFlags : List Bytes := []
  cFlags : List Bytes := []
  deriving DecidableEq, Repr

/-- The programs used when nothing else is asked for. -/
def Toolchain.default : Toolchain := { assembler := "as", cc := "gcc" }

/-- One call of an external program. -/
structure Invocation where
  program : Bytes
  args : List Bytes
  deriving DecidableEq, Repr

/-- An external program that ran and failed. A program stopped by a signal has the
    exit code -1. -/
structure ToolFailure where
  invocation : Invocation
  code : Int
  stderr : Bytes
  deriving DecidableEq, Repr

namespace ToolFailure

/-- The wording of the failure. -/
def message (f : ToolFailure) : Bytes :=
  f.invocation.program ++ s!" failed with exit status {f.code}"

/-- What the program wrote to its error stream, without the line feeds at its
    end. -/
def diagnostics (f : ToolFailure) : Bytes :=
  (f.stderr.reverse.dropWhile (· == '\n'.toUInt8)).reverse

/-- The lines of the diagnostics; none if there is nothing but line feeds. -/
def lines (f : ToolFailure) : List Bytes :=
  if f.diagnostics.isEmpty then [] else f.diagnostics.splitOn '\n'.toUInt8

end ToolFailure

/-- What is shown of a failed run: the message, and then the diagnostics of the tool
    that caused it, if one did. -/
def failureReport (styles : Styles) (message : Bytes) (tool? : Option ToolFailure) : Bytes :=
  let diagnostics := (tool?.map ToolFailure.lines).getD []
  styles.error "error:" ++ " " ++ message ++ "\n" ++
    diagnostics.flatMap fun line => styles.dim line ++ ['\n'.toUInt8]

end TapeCompiler
