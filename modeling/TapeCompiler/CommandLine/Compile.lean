import TapeCompiler.CommandLine.Dump
import TapeCompiler.CommandLine.Options

/-!
# Compiling from the command line

The flags override the settings, and the settings together with the flags make a job.
-/

namespace TapeCompiler

/-- The settings after the flags. A switch counts if the command line gives it, a name if
    it is not empty. -/
def Settings.override (s : Settings) (o : CommandLine.Options) : Settings :=
  { s with
    optimize := if o.optimize.changed then o.optimize.value else s.optimize
    keepFiles := if o.keepFiles.changed then o.keepFiles.value else s.keepFiles
    labels := if o.labels.value.isEmpty then s.labels else o.labels.value
    target := if o.target.value.isEmpty then s.target else o.target.value }

namespace CommandLine

variable {m : Type → Type} [Monad m] [Host m]

/-- The settings in effect: those found, after the flags. -/
def settle (decoders : Settings.Decoders) (o : Options) : m (Except RunError Settings) := do
  match ← Settings.discover decoders o.configFile with
  | .error e => return .error (.unsettled e)
  | .ok found =>
    let s := found.override o
    match s.validate with
    | .error e => return .error (.missettled e)
    | .ok () => return .ok s

/-- The log that the flags ask for. -/
def logger (o : Options) : Log.Logger :=
  { level? := some (if o.verbose then .debug else .warn) }

/-- Where the labels of a job come from, by the name of a scheme. -/
def labelSource? (scheme : Bytes) : m (Option LabelSource) := do
  match LabelScheme.ofName scheme with
  | .counter => return none
  | .random => return some (.random (← Host.identifiers))

/-- Builds a file with settings. -/
def build (o : Options) (s : Settings) (file : Bytes) : m (Except RunError Unit) := do
  let log := logger o
  if let some path := s.source? then
    log.write .debug "config" [("file", .text path)]
  match OutputKind.infer o.output o.assembly o.c with
  | .error e => return .error (.conflict e)
  | .ok kind =>
    let output : Bytes := if o.output.isEmpty then kind.defaultOutput else o.output
    match Target.ofName? s.target with
    | .error e => return .error (.unknownTarget e)
    | .ok target =>
      let seconds ← Host.seconds
      let tmpdir ← Host.getEnv "TMPDIR"
      let labels? ← labelSource? s.labels
      let workshop : Workshop := { toolchain := s.toolchain, logger := log }
      let job : Job :=
        { paths := .plan file output s.keepFiles seconds (tmpdir.getD [])
          kind
          target? := some target
          optimized := s.optimize
          labels? }
      match ← workshop.run job with
      | .error e => return .error (.build e)
      | .ok () => return .ok ()

/-- Compiles a file, or shows its tokens or its tree. -/
def compile (decoders : Settings.Decoders) (o : Options) (file : Bytes) :
    m (Except RunError Unit) := do
  if o.listTokens then showTokens file
  else if o.dumpTree then showTree file o.treeFormat
  else
    match ← settle decoders o with
    | .error e => return .error e
    | .ok s => build o s file

end CommandLine

end TapeCompiler
