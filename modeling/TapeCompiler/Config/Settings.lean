import TapeCompiler.Build.Toolchain
import TapeCompiler.Text.Blank
import TapeCompiler.Text.Letter
import TapeCompiler.Text.Quoted

/-!
# Settings

The settings of the compiler come from a file, with defaults where the file is silent.
They are valid if they name a target and a label scheme that exist and no tool has a
blank name.
-/

namespace TapeCompiler

/-- The settings of the compiler. An empty name has not been set. -/
structure Settings where
  target : Bytes := []
  optimize : Bool := false
  keepFiles : Bool := false
  labels : Bytes := []
  toolchain : Toolchain := { assembler := [], cc := [] }
  /-- The file that the settings come from; none for the defaults. -/
  source? : Option Bytes := none
  deriving DecidableEq, Repr

/-- What is wrong with settings. -/
inductive InvalidSettings where
  | target (name : Bytes)
  | labels (name : Bytes)
  | blankProgram
  deriving DecidableEq, Repr

/-- The wording of the fault. -/
def InvalidSettings.message : InvalidSettings → String
  | target name => s!"invalid config: target {Quoted.bytes name} (want asm or c)"
  | labels name => s!"invalid config: labels {Quoted.bytes name} (want counter or random)"
  | blankProgram => "invalid config: toolchain programs must not be blank"

namespace Settings

/-- A name, or another one if it has not been set. -/
def orElse (name fallback : Bytes) : Bytes :=
  if name.isEmpty then fallback else name

/-- The settings with defaults for what has not been set. -/
def withDefaults (s : Settings) : Settings :=
  { s with
    target := orElse s.target "asm"
    labels := orElse s.labels "counter"
    toolchain :=
      { s.toolchain with
        assembler := orElse s.toolchain.assembler "as"
        cc := orElse s.toolchain.cc "gcc" } }

/-- The settings used when there is no file. -/
def default : Settings := withDefaults {}

/-- Checks settings. Of several faults the first in the order of the settings is
    told. -/
def validate (s : Settings) : Except InvalidSettings Unit :=
  if !Letter.isWord "asm" s.target && !Letter.isWord "c" s.target then
    .error (.target s.target)
  else if s.labels ≠ "counter" ∧ s.labels ≠ "random" then
    .error (.labels s.labels)
  else if Blank.isAllBlank s.toolchain.assembler || Blank.isAllBlank s.toolchain.cc then
    .error .blankProgram
  else
    .ok ()

end Settings

end TapeCompiler
