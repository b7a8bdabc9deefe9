import TapeCompiler.Text.Bytes

/-!
# Options

What the flags of a command line say. A flag has a value in any case, and it is known
whether the command line gives it. What is done with the options depends on nothing else
of the command line.
-/

namespace TapeCompiler.CommandLine

/-- The value of a flag, and whether the command line gives it. -/
structure FlagValue (α : Type) where
  value : α
  changed : Bool := false
  deriving DecidableEq, Repr

/-- What the flags say. -/
structure Options where
  configFile : Bytes := []
  verbose : Bool := false
  output : Bytes := []
  optimize : FlagValue Bool := ⟨false, false⟩
  assembly : Bool := false
  c : Bool := false
  keepFiles : FlagValue Bool := ⟨false, false⟩
  dumpTree : Bool := false
  treeFormat : Bytes := "text"
  listTokens : Bool := false
  labels : FlagValue Bytes := ⟨[], false⟩
  target : FlagValue Bytes := ⟨[], false⟩
  deriving DecidableEq, Repr

/-- The commands beside compiling. -/
inductive Command where
  | version
  | doctor
  | session
  deriving DecidableEq, Repr

/-- What a command line asks for. -/
inductive Request where
  | compile (o : Options) (file : Bytes)
  | command (o : Options) (c : Command)
  /-- To be told how to use the program, by the words of the command line. -/
  | manual (words : List Bytes)
  deriving DecidableEq, Repr

end TapeCompiler.CommandLine
