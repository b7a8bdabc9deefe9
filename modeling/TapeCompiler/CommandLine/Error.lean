import TapeCompiler.Build.Run
import TapeCompiler.CommandLine.Flag
import TapeCompiler.Config.Load
import TapeCompiler.Document.Json
import TapeCompiler.Target.Choice

/-!
# Errors of the command line

Whatever goes wrong in a run of the program ends in one of these errors, which is shown
on the error stream.
-/

namespace TapeCompiler.CommandLine

/-- Why a run of the program failed. -/
inductive RunError where
  | usage (e : UsageError)
  /-- No settings were found. -/
  | unsettled (e : ConfigError)
  /-- The settings are invalid after the flags. -/
  | missettled (e : InvalidSettings)
  | conflict (e : OutputKind.Conflict)
  | unknownTarget (e : UnknownTarget)
  | build (e : BuildError)
  /-- A file to be shown could not be opened. -/
  | unopened (e : FileError)
  | unparsable (e : ParseError)
  | unknownTreeFormat (name : Bytes)
  /-- A tree could not be written down. -/
  | unwritable (e : Document.JsonError)
  | missingTools
  /-- The library that reads command lines refused to tell how to use the program. -/
  | unadvised (message : Bytes)

/-- The wording of the error. -/
def RunError.message : RunError → Bytes
  | usage e => e.message
  | unsettled e => "loading config: " ++ e.message
  | missettled e => e.message
  | conflict e => e.message
  | unknownTarget e => e.message
  | build e => e.message
  | unopened e => e.message
  | unparsable e => e.message
  | unknownTreeFormat name => s!"unknown AST format {Quoted.bytes name} (want text, json or yaml)"
  | unwritable e => e.message
  | missingTools => "some required tools are missing"
  | unadvised message => message

/-- The tool whose failure caused the error, if one did. -/
def RunError.tool? : RunError → Option ToolFailure
  | build e => e.tool?
  | _ => none

/-- What is shown of the error. -/
def RunError.report (styles : Styles) (e : RunError) : Bytes :=
  failureReport styles e.message e.tool?

end TapeCompiler.CommandLine
