import TapeCompiler.File.Path

/-!
# The files of a build

Every file that one compilation touches has a name before it starts. Intermediate
files that are kept stand beside the output, with its extension replaced; others go
to the directory for temporary files, under the output's name and the time in
seconds.
-/

namespace TapeCompiler

/-- The files of one compilation. -/
structure BuildPaths where
  source : Bytes
  /-- The intermediate assembly. -/
  assembly : Bytes
  /-- The intermediate C source. -/
  cSource : Bytes
  object : Bytes
  output : Bytes
  /-- Whether the intermediate files survive the build. -/
  keep : Bool
  deriving DecidableEq, Repr

namespace BuildPaths

/-- The directory for temporary files, given the value of `TMPDIR`. -/
def temporaryDirectory (tmpdir : Bytes) : Bytes :=
  if tmpdir.isEmpty then "/tmp" else tmpdir

/-- The common beginning of the intermediate files. -/
def intermediateStem (output : Bytes) (keep : Bool) (seconds : Int) (tmpdir : Bytes) : Bytes :=
  if keep then
    Path.stem output
  else
    Path.join [temporaryDirectory tmpdir, Path.base (Path.stem output) ++ "_" ++ toString seconds]

/-- The files for compiling `source` to `output` at a time given in seconds. -/
def plan (source output : Bytes) (keep : Bool) (seconds : Int) (tmpdir : Bytes) : BuildPaths :=
  let stem := intermediateStem output keep seconds tmpdir
  { source, output, keep
    assembly := stem ++ ".S"
    cSource := stem ++ ".c"
    object := stem ++ ".o" }

/-- The files that an executable build leaves behind, for the extension of the
    generated file. -/
def intermediates (p : BuildPaths) (extension : String) : List Bytes :=
  if extension = ".c" then [p.cSource] else [p.assembly, p.object]

end BuildPaths

end TapeCompiler
