import TapeCompiler.Target.Lowering

/-!
# Generating to a writer

Text can be written while the tree is walked: each chunk goes to the writer where the
walk comes to it. A write that fails does not end the walk. Nothing more is written then,
but the walk still takes labels, and it still stops at a statement that cannot be lowered.

  * `Program.generateTo` generates a program to a writer and says which write failed first.
-/

namespace TapeCompiler

/-- The state of generating to a writer. -/
structure Emission where
  writer : Writer
  labels : LabelSource

/-- A walk that writes. A fault ends it, and what was written before stays written. -/
abbrev Emitter := EStateM LoweringFault Emission

namespace Emitter

/-- Write one chunk. -/
def write (c : Chunk) : Emitter Unit :=
  modify fun e => { e with writer := e.writer.write c }

/-- Write the same chunk `n` times. -/
def writeMany (c : Chunk) : Nat → Emitter Unit
  | 0 => pure ()
  | n + 1 => do
    write c
    writeMany c n

/-- Take the labels of a new loop. -/
def loopLabels : Emitter LoopLabels :=
  modifyGet fun e => (e.labels.loop.1, { e with labels := e.labels.loop.2 })

/-- Write a counted leaf. -/
def step (o : LoweringOptions) (s : Step) (count : Nat) : Emitter Unit :=
  if o.optimized then write (o.target.step s count)
  else writeMany (o.target.step s 1) count

end Emitter

mutual

/-- Write a statement. -/
def Stmt.emit (o : LoweringOptions) : Stmt → Emitter Unit
  | .repeated s _ count => Emitter.step o s count
  | .printChar _ => Emitter.write o.target.printChar
  | .readChar _ => Emitter.write o.target.readChar
  | .loop _ body _ => do
    let names ← Emitter.loopLabels
    Emitter.write (o.target.loopEnter names)
    Stmt.emitList o body
    Emitter.write (o.target.loopExit names)
  | .foreign kind pos => throw (.unexpected (.foreign kind pos))
  | .absent => throw (.unexpected .absent)

/-- Write a statement list. -/
def Stmt.emitList (o : LoweringOptions) : List Stmt → Emitter Unit
  | [] => pure ()
  | s :: rest => do
    s.emit o
    Stmt.emitList o rest

end

/-- Generate a program to a writer. The result is the first failure of the writer. -/
def Program.generateTo (p : Program) (o : LoweringOptions) : Emitter (Option String) := do
  Emitter.write o.target.prologue
  Stmt.emitList o p.body
  Emitter.write o.target.epilogue
  return (← get).writer.failure?

end TapeCompiler
