import TapeCompiler.File.Path
import TapeCompiler.Text.Letter

/-!
# Kinds of output

A compilation stops at assembly, at C source, or goes on to an executable. The
flags for the first two win; without them the extension of the output decides.
-/

namespace TapeCompiler

/-- What a compilation produces. Kinds are numbered; a number past the known ones is
    kept and treated like an executable's, except that no tool runs for it. -/
inductive OutputKind where
  | executable
  | assembly
  | cSource
  | other (code : Int)
  deriving DecidableEq, Repr

namespace OutputKind

/-- The kind with the given number. -/
def ofCode (code : Int) : OutputKind :=
  if code = 0 then executable
  else if code = 1 then assembly
  else if code = 2 then cSource
  else other code

/-- The name of a kind. -/
def name : OutputKind → String
  | executable => "executable"
  | assembly => "assembly"
  | cSource => "c"
  | other code => s!"Format({code})"

/-- The output used when none is given. -/
def defaultOutput : OutputKind → String
  | assembly => "a.S"
  | cSource => "a.c"
  | _ => "a.out"

/-- Both stopping places were asked for at once. -/
structure Conflict where
  deriving DecidableEq, Repr

/-- The wording of the conflict. -/
def Conflict.message (_ : Conflict) : String :=
  "cannot output both assembly and C"

/-- The kind that the extension of an output asks for. -/
def ofOutput (output : Bytes) : OutputKind :=
  if Letter.isWord ".s" (Path.ext output) then assembly
  else if Letter.isWord ".c" (Path.ext output) then cSource
  else executable

/-- The kind of output for an output path and the two flags. -/
def infer (output : Bytes) (toAssembly toC : Bool) : Except Conflict OutputKind :=
  match toAssembly, toC with
  | true, true => .error ⟨⟩
  | true, false => .ok assembly
  | false, true => .ok cSource
  | false, false => .ok (ofOutput output)

end OutputKind

end TapeCompiler
