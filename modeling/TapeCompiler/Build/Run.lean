import TapeCompiler.Build.OutputKind
import TapeCompiler.Build.Paths
import TapeCompiler.Build.Toolchain
import TapeCompiler.Host.Search
import TapeCompiler.Log
import TapeCompiler.Program.Parser
import TapeCompiler.Program.Statistics
import TapeCompiler.Target.Assembly
import TapeCompiler.Target.C
import TapeCompiler.Target.Lowering

/-!
# Building

A build reads a source, generates the text for a target and writes it. If an executable
is wanted, the text is an intermediate file, and tools make the executable from it; each
tool is run only if those before it succeeded. Afterwards the intermediate files are
removed, unless they are to be kept, whatever became of the tools.
-/

namespace TapeCompiler

/-- One compilation. -/
structure Job where
  paths : BuildPaths
  kind : OutputKind
  /-- The target of an executable; the other kinds bring their own. -/
  target? : Option Target := none
  optimized : Bool := false
  /-- Where the labels come from, if not from a counter of the job's own. -/
  labels? : Option LabelSource := none

/-- Where the labels of a job come from. -/
def Job.labels (j : Job) : LabelSource :=
  j.labels?.getD .fresh

/-- The target that generates the text of a job. -/
def Job.backend (j : Job) : Target :=
  match j.kind with
  | .assembly => Assembly.target
  | .cSource => C.target
  | _ => j.target?.getD Assembly.target

/-- How jobs are run. -/
structure Workshop where
  toolchain : Toolchain
  /-- Whether progress is told on the output. -/
  progress : Bool := true
  logger : Log.Logger := {}
  /-- Whether the work has been called off: no tool starts any more. -/
  cancelled : Bool := false

/-- Why a tool did not start. -/
inductive StartFailure where
  /-- Its name is empty. -/
  | noCommand
  /-- The search for it was refused. -/
  | unsearchable (name : Bytes) (f : SearchFailure)
  /-- The system refused to execute it. -/
  | refused (e : FileError)
  deriving DecidableEq, Repr

/-- The wording of the failure. -/
def StartFailure.message : StartFailure → Bytes
  | noCommand => "exec: no command"
  | unsearchable name (.relative _) =>
    s!"exec: {Quoted.bytes name}: cannot run executable found relative to current directory"
  | unsearchable name (.refused cause) => s!"exec: {Quoted.bytes name}: {cause.message}"
  | unsearchable name .notFound => s!"exec: {Quoted.bytes name}: executable file not found in $PATH"
  | refused e => e.message

/-- Why a build failed. -/
inductive BuildError where
  /-- The source could not be opened. -/
  | sourceMissing (e : FileError)
  | unparsable (e : ParseError)
  /-- No text can be generated for the source. -/
  | ungenerated (e : LoweringFault)
  /-- A file could not be written. -/
  | unwritable (e : FileError)
  | toolNotFound (name : Bytes)
  | toolFailed (f : ToolFailure)
  | cancelled (name : Bytes)
  | toolNotStarted (name : Bytes) (f : StartFailure)

/-- The wording of the error. -/
def BuildError.message : BuildError → Bytes
  | sourceMissing e => "failed to read source: " ++ e.message
  | unparsable e => e.message
  | ungenerated e => e.message
  | unwritable e => "failed to write output: " ++ e.message
  | toolNotFound name => "tool not found: " ++ name
  | toolFailed f => f.message
  | cancelled name => "running " ++ name ++ ": context canceled"
  | toolNotStarted name f => "running " ++ name ++ ": " ++ f.message

/-- The tool whose failure the error is, if it is one. -/
def BuildError.tool? : BuildError → Option ToolFailure
  | toolFailed f => some f
  | _ => none

namespace Job

/-- The file that the generated text of an executable goes to. -/
def intermediate (j : Job) : Bytes :=
  if j.backend.extension = ".c" then j.paths.cSource else j.paths.assembly

/-- The tools that make an executable from the generated text, in order. -/
def pipeline (j : Job) (t : Toolchain) : List Invocation :=
  if j.backend.extension = ".c" then
    let optimize : List Bytes := if j.optimized then ["-O2"] else []
    [⟨t.cc, [j.paths.cSource, "-o", j.paths.output] ++ optimize ++ t.cFlags⟩]
  else
    [⟨t.assembler, [j.paths.assembly, "-o", j.paths.object] ++ t.asFlags⟩,
      ⟨t.cc, [j.paths.object, "-o", j.paths.output] ++ t.cFlags⟩]

end Job

namespace Workshop

variable {m : Type → Type} [Monad m] [Host m]

/-- Tells about progress. -/
def report (w : Workshop) (text : Bytes) : m Unit :=
  if w.progress then Host.print text else pure ()

/-- The program to execute for a name. A name that is its own last element is searched,
    any other is taken as it stands. -/
def locate (name : Bytes) : m (Except StartFailure Bytes) := do
  if name.isEmpty then return .error .noCommand
  else if Path.base name = name then
    match ← Search.find name with
    | .ok path => return .ok path
    | .error f => return .error (.unsearchable name f)
  else return .ok name

/-- Runs a tool that may have been called off, and says what became of it. That a tool
    is not there is said even if it was called off. -/
def attempt (w : Workshop) (i : Invocation) : m (Except BuildError Unit) := do
  match ← locate i.program with
  | .error (.unsearchable _ .notFound) => return .error (.toolNotFound i.program)
  | .error f =>
    return .error (if w.cancelled then .cancelled i.program else .toolNotStarted i.program f)
  | .ok path =>
    if w.cancelled then return .error (.cancelled i.program)
    else
      match ← Host.execute path i.args with
      | .error e => return .error (.toolNotStarted i.program (.refused e))
      | .ok result =>
        return if result.code = 0 then .ok () else .error (.toolFailed ⟨i, result.code, result.stderr⟩)

/-- Runs a tool and tells about it. -/
def runTool (w : Workshop) (i : Invocation) : m (Except BuildError Unit) := do
  w.logger.write .debug "exec" [("tool", .text i.program), ("args", .words i.args)]
  w.report ("Running \x60" ++ i.program ++ "\x60... ")
  let result ← w.attempt i
  match result with
  | .ok () => w.report "SUCCESS\n"
  | .error _ => w.report "FAILED\n"
  return result

/-- Runs tools in order up to the first that fails. -/
def runTools (w : Workshop) : List Invocation → m (Except BuildError Unit)
  | [] => return .ok ()
  | i :: rest => do
    match ← w.runTool i with
    | .error e => return .error e
    | .ok () => w.runTools rest

/-- Removes files. One that is not there is fine; other failures are logged. -/
def cleanUp (w : Workshop) : List Bytes → m Unit
  | [] => return ()
  | path :: rest => do
    match ← Host.remove path with
    | .ok () => pure ()
    | .error e =>
      if e.cause ≠ .noSuchFile then
        w.logger.write .warn "failed to remove intermediate file"
          [("file", .text path), ("err", .text e.message)]
    w.cleanUp rest

/-- Reads and parses the source of a job. -/
def parse (w : Workshop) (source : Bytes) : m (Except BuildError Program) := do
  match ← Host.readFile source with
  | .error e =>
    match e.operation with
    | .open => return .error (.sourceMissing e)
    | _ => return .error (.unparsable (.unreadable e.message.text))
  | .ok text =>
    let start ← Host.now
    match Program.parse (Source.ofBytes source.text text) with
    | .error e => return .error (.unparsable e)
    | .ok p =>
      let stop ← Host.now
      let s := p.statistics
      w.logger.write .debug "parse" [("file", .text source), ("loops", .number s.loops),
        ("depth", .number s.maxDepth), ("leaves", .number s.leaves),
        ("commands", .number s.commandWord), ("elapsed", .span (stop - start))]
      return .ok p

/-- Generates the text of a parsed source. -/
def generate (w : Workshop) (j : Job) (p : Program) : m (Except BuildError String) := do
  let start ← Host.now
  match p.generate ⟨j.backend, j.optimized⟩ j.labels with
  | .error e => return .error (.ungenerated e)
  | .ok text =>
    let stop ← Host.now
    w.logger.write .debug "codegen" [("target", .text j.backend.name),
      ("optimized", .switch j.optimized), ("bytes", .number text.utf8ByteSize),
      ("elapsed", .span (stop - start))]
    return .ok text

/-- Writes generated text to a file. -/
def writeText (path : Bytes) (text : String) : m (Except BuildError Unit) := do
  match ← Host.writeFile path text with
  | .error e => return .error (.unwritable e)
  | .ok () => return .ok ()

/-- Makes an executable from generated text. -/
def makeExecutable (w : Workshop) (j : Job) (text : String) : m (Except BuildError Unit) := do
  match ← writeText j.intermediate text with
  | .error e => return .error e
  | .ok () =>
    let result ← w.runTools (j.pipeline w.toolchain)
    if !j.paths.keep then
      w.cleanUp (j.paths.intermediates j.backend.extension)
    return result

/-- Runs a job. -/
def run (w : Workshop) (j : Job) : m (Except BuildError Unit) := do
  match ← w.parse j.paths.source with
  | .error e => return .error e
  | .ok p =>
    match ← w.generate j p with
    | .error e => return .error e
    | .ok text =>
      if j.kind = .executable then w.makeExecutable j text
      else writeText j.paths.output text

end Workshop

end TapeCompiler
