import Std.Time.DateTime.Timestamp
import TapeCompiler.CommandLine.Run
import TapeCompiler.Config.Decode
import TapeCompiler.Host.Expansion
import TapeCompiler.Host.Identifier
import TapeCompiler.Text.Styled

/-!
# The program

The command line on a real system. Files, environment, streams and clock are those of
the system. Other programs cannot be started from here, so none counts as installed:
source, trees and generated text are served in full, and a build that needs a tool says
that the tool is missing.
-/

namespace TapeCompiler.Main

/-- Why the system refused, by its error. -/
def refusal : IO.Error → Refusal
  | .noFileOrDirectory _ _ _ => .noSuchFile
  | .permissionDenied _ _ _ => .permission
  | .inappropriateType _ code _ => if code = 20 then .notDirectory else .isDirectory
  | .unsatisfiedConstraints _ _ => .notEmpty
  | e => .other (toString e)

/-- Runs an action and turns its error into a refusal. -/
def guarded {α : Type} (act : IO α) : IO (Except Refusal α) := do
  try
    return .ok (← act)
  catch e =>
    return .error (refusal e)

/-- What stands at a path. No file counts as executable. -/
def stat (path : Bytes) : IO (Except Refusal FileKind) := do
  let here ← IO.currentDir
  guarded do
    let info ← (here / path.text).metadata
    return match info.type with
      | .dir => FileKind.directory
      | _ => FileKind.file false

/-- The content of a file. -/
def readFile (path : Bytes) : IO (Except FileError Bytes) := do
  match ← guarded (IO.FS.Handle.mk path.text .read) with
  | .error cause => return .error ⟨.open, path, cause⟩
  | .ok handle =>
    match ← guarded handle.readBinToEnd with
    | .error cause => return .error ⟨.read, path, cause⟩
    | .ok content => return .ok content.toList

/-- Makes a file. -/
def writeFile (path content : Bytes) : IO (Except FileError Unit) := do
  let result ← guarded (IO.FS.writeBinFile path.text (ByteArray.mk content.toArray))
  return result.mapError fun cause => ⟨.open, path, cause⟩

/-- Removes a file or an empty directory. -/
def remove (path : Bytes) : IO (Except FileError Unit) := do
  match ← guarded (IO.FS.removeFile path.text) with
  | .ok () => return .ok ()
  | .error first =>
    match ← guarded (IO.FS.removeDir path.text) with
    | .ok () => return .ok ()
    | .error second =>
      return .error ⟨.remove, path, if second = .notDirectory then first else second⟩

/-- The bytes up to and including the next line feed, or up to the end of the input. -/
partial def rawLine (input : IO.FS.Stream) (acc : Bytes) : IO Bytes := do
  let chunk ← input.read 1
  match chunk.toList with
  | [] => return acc.reverse
  | b :: _ => if b = '\n'.toUInt8 then return (b :: acc).reverse else rawLine input (b :: acc)

/-- Feeds lines to a machine until it stops or the lines end. -/
def feedAll {σ : Type} (step : σ → Option Bytes → IO (Option σ)) (s : σ) :
    List Bytes → IO (Option σ)
  | [] => return some s
  | line :: rest => do
    match ← step s (some line) with
    | none => return none
    | some s => feedAll step s rest

/-- Feeds the lines of an input to a machine until it stops or the input ends. -/
partial def feed {σ : Type} (input : IO.FS.Stream) (step : σ → Option Bytes → IO (Option σ))
    (s : σ) : IO Unit := do
  let line ← rawLine input []
  if line.isEmpty then
    let _ ← step s none
    return ()
  else
    match ← feedAll step s (Session.inputLines line) with
    | none => return ()
    | some s => feed input step s

/-- Writes to a stream. -/
def write (output : IO.FS.Stream) (text : Bytes) : IO Unit := do
  output.write (ByteArray.mk text.toArray)
  output.flush

/-- The value of an environment variable. -/
def getEnv (name : Bytes) : IO (Option Bytes) := do
  return (← IO.getEnv name.text).map Bytes.ofString

/-- A text with its variables replaced. The values are looked up before. -/
def expandEnv (text : Bytes) : IO Bytes := do
  let values ← (Expansion.namesOnto [] 0 text).mapM fun name => do
    return (name, (← getEnv name).getD [])
  return Expansion.expand (fun name => (values.lookup name).getD []) text

instance : Host IO where
  getEnv name := getEnv name
  expandEnv text := expandEnv text
  stat path := stat path
  readFile path := readFile path
  writeFile path content := writeFile path content
  remove path := remove path
  execute path _ := return .error ⟨.execute, path, .other "programs cannot be started"⟩
  print text := do write (← IO.getStdout) text
  printError text := do write (← IO.getStderr) text
  feedLines s step := do feed (← IO.getStdin) step s
  now := do
    let time ← Std.Time.Timestamp.now
    return time.toNanosecondsSinceUnixEpoch.toInt.toNat
  identifiers := do
    let bytes ← IO.getRandomBytes 16
    return Identifier.series (bytes.toList.foldl (fun n b => n * 256 + b.toNat) 0)

/-- How this program was built. -/
def info : CommandLine.BuildInfo := { language := "unknown", platform := "unknown" }

/-- How to use the program. -/
def helpText : String :=
  "bfc compiles programs for the eight-command tape machine\n" ++
  "(> < + - . , [ ]) to x86-64 GNU assembly or C, and by default\n" ++
  "assembles and links them into an executable with as and gcc.\n" ++
  "\n" ++
  "Every character other than the eight commands is a comment.\n" ++
  "\n" ++
  "Usage:\n" ++
  "  bfc [flags] <file>\n" ++
  "  bfc [command]\n"

/-- What stands for the libraries of the program here. -/
def library : CommandLine.Library where
  decoders := Settings.decoders
  styles := Styled.plain
  manual := fun _ => .ok helpText

end TapeCompiler.Main

/-- Runs the compiler with the words of the command line. -/
def main (args : List String) : IO UInt32 := do
  let words := args.map TapeCompiler.Bytes.ofString
  match ← TapeCompiler.CommandLine.run TapeCompiler.Main.library TapeCompiler.Main.info words with
  | .ok () => return 0
  | .error _ => return 1
