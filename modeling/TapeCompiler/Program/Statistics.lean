import TapeCompiler.Program.Basic

/-!
# Statistics

How many loops and leaves a tree has, how deep its loops nest and how many source
commands it stands for, brackets included. A gap or a foreign statement inside a
list counts as a leaf of one command; a gap on its own counts nothing.

The sum of the commands is exact here; where it is reported it is a 64-bit number
that wraps around (`Statistics.commandWord`).
-/

namespace TapeCompiler

/-- The shape of a tree in numbers. -/
structure Statistics where
  /-- Loops. -/
  loops : Nat := 0
  /-- The deepest nesting of loops, zero without loops. -/
  maxDepth : Nat := 0
  /-- Statements that are no loops. -/
  leaves : Nat := 0
  /-- Source commands the tree stands for. -/
  commands : Nat := 0
  deriving DecidableEq, Repr

namespace Statistics

/-- Count a leaf that stands for `commands` commands. -/
def leaf (st : Statistics) (commands : Nat) : Statistics :=
  { st with leaves := st.leaves + 1, commands := st.commands + commands }

/-- Count the two brackets of a loop. -/
def loop (st : Statistics) : Statistics :=
  { st with loops := st.loops + 1, commands := st.commands + 2 }

/-- Note that a statement list lies `depth` loops deep. -/
def reach (st : Statistics) (depth : Nat) : Statistics :=
  { st with maxDepth := max st.maxDepth depth }

/-- The number of commands as a signed 64-bit word. -/
def commandWord (st : Statistics) : Int :=
  Int.bmod st.commands 0x10000000000000000

end Statistics

mutual

/-- Count a statement that stands `depth` loops deep. -/
def Stmt.count (depth : Nat) (st : Statistics) : Stmt → Statistics
  | .repeated _ _ n => st.leaf n
  | .loop _ body _ => Stmt.countList (depth + 1) (st.loop.reach (depth + 1)) body
  | .printChar _ | .readChar _ | .foreign .. | .absent => st.leaf 1

/-- Count the statements of a list that lies `depth` loops deep. -/
def Stmt.countList (depth : Nat) (st : Statistics) : List Stmt → Statistics
  | [] => st
  | s :: rest => Stmt.countList depth (s.count depth st) rest

end

/-- The statistics of a program. -/
def Program.statistics (p : Program) : Statistics :=
  Stmt.countList 0 {} p.body

/-- The statistics of a node. -/
def Node.statistics : Node → Statistics
  | .root p => p.statistics
  | .stmt .absent => {}
  | .stmt s => s.count 0 {}

end TapeCompiler
