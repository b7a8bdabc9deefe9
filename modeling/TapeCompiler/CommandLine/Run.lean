import TapeCompiler.CommandLine.Doctor
import TapeCompiler.CommandLine.Interact
import TapeCompiler.CommandLine.Request

/-!
# Running the program

The program does what its command line asks for. If that fails, the error is shown and
given back. What it takes from libraries comes with it (`Library`).
-/

namespace TapeCompiler.CommandLine

/-- What the program knows about how it was built. -/
structure BuildInfo where
  commit : String := "development"
  date : String := "unknown"
  /-- The version of the language it was built with. -/
  language : String
  /-- The system and the processor it was built for. -/
  platform : String
  deriving DecidableEq, Repr

/-- What `version` shows. -/
def BuildInfo.text (i : BuildInfo) : String :=
  s!"bfc v{versionNumber}\n  Git Commit: {i.commit}\n  Build Date: {i.date}\n" ++
    s!"  Go Version: {i.language}\n  OS/Arch:    {i.platform}\n"

/-- What the program takes from libraries. -/
structure Library where
  decoders : Settings.Decoders
  styles : Styles := {}
  /-- What the words of a command line get to read about the use of the program, or why
      they get nothing. -/
  manual : List Bytes → Except Bytes Bytes := fun _ => .ok []

variable {m : Type → Type} [Monad m] [Host m]

/-- Does what a request asks for. -/
def serve (library : Library) (info : BuildInfo) : Request → m (Except RunError Unit)
  | .compile o file => compile library.decoders o file
  | .command _ .version => do
    Host.print info.text
    return .ok ()
  | .command o .doctor => doctor library.decoders library.styles o
  | .command o .session => startSession library.decoders library.styles o
  | .manual words =>
    match library.manual words with
    | .error message => return .error (.unadvised message)
    | .ok text => do
      Host.print text
      return .ok ()

/-- Runs the program with the words of a command line. -/
def run (library : Library) (info : BuildInfo) (words : List Bytes) :
    m (Except RunError Unit) := do
  let result ←
    match request words with
    | .error e => pure (.error (.usage e))
    | .ok r => serve library info r
  if let .error e := result then
    Host.printError (e.report library.styles)
  return result

end TapeCompiler.CommandLine
