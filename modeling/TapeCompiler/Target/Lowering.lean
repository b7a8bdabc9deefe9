import TapeCompiler.Target.Basic

/-!
# Lowering programs to text

Lowering turns a tree into the chunks of a target, prologue first and epilogue
last. Optimised, a counted leaf is one chunk that carries the count. Otherwise the
chunk of a single step is repeated, as if the run had never been merged.

Chunks go to a writer one at a time, each with a line feed after it. A writer may
fail; after the first failure nothing more is written, but lowering goes on, so
labels are handed out as if nothing had happened.

  * `Program.lower` gives the chunks and the labels left over.
  * `Program.generate` is the text.
  * `Writer.writeAll` writes chunks to a writer that may fail.
-/

namespace TapeCompiler

/-- Why a tree has no generated text. -/
inductive LoweringFault
  | noProgram
  | unexpected (s : Stmt)
  deriving Repr

/-- The wording of the fault. -/
def LoweringFault.message : LoweringFault → String
  | noProgram => "codegen: nil root"
  | unexpected s => s!"codegen: unexpected node {s.name}"

/-- How to lower. -/
structure LoweringOptions where
  target : Target
  optimized : Bool := false

/-- The state of lowering: the chunks so far, last first, and the label source. -/
structure Lowering where
  chunks : List Chunk
  labels : LabelSource

namespace Lowering

/-- Add a chunk. -/
def emit (l : Lowering) (c : Chunk) : Lowering :=
  { l with chunks := c :: l.chunks }

/-- Add the same chunk `n` times. -/
def emitMany (l : Lowering) (n : Nat) (c : Chunk) : Lowering :=
  { l with chunks := List.replicate n c ++ l.chunks }

/-- Lower a counted leaf. -/
def step (o : LoweringOptions) (l : Lowering) (s : Step) (count : Nat) : Lowering :=
  if o.optimized then l.emit (o.target.step s count)
  else l.emitMany count (o.target.step s 1)

end Lowering

mutual

/-- Lower a statement. -/
def Stmt.lower (o : LoweringOptions) (l : Lowering) : Stmt → Except LoweringFault Lowering
  | .repeated s _ count => .ok (l.step o s count)
  | .printChar _ => .ok (l.emit o.target.printChar)
  | .readChar _ => .ok (l.emit o.target.readChar)
  | .loop _ body _ =>
    let (names, labels) := l.labels.loop
    match Stmt.lowerList o { (l.emit (o.target.loopEnter names)) with labels } body with
    | .error e => .error e
    | .ok l => .ok (l.emit (o.target.loopExit names))
  | .foreign kind pos => .error (.unexpected (.foreign kind pos))
  | .absent => .error (.unexpected .absent)

/-- Lower a statement list. -/
def Stmt.lowerList (o : LoweringOptions) (l : Lowering) :
    List Stmt → Except LoweringFault Lowering
  | [] => .ok l
  | s :: rest =>
    match s.lower o l with
    | .error e => .error e
    | .ok l => Stmt.lowerList o l rest

end

namespace Program

/-- The chunks of a program in order, and the labels left over. -/
def lower (p : Program) (o : LoweringOptions) (labels : LabelSource) :
    Except LoweringFault (List Chunk × LabelSource) :=
  match Stmt.lowerList o { chunks := [o.target.prologue], labels } p.body with
  | .error e => .error e
  | .ok l => .ok ((l.emit o.target.epilogue).chunks.reverse, l.labels)

/-- The text of chunks, each with a line feed after it. -/
def textOf (chunks : List Chunk) : String :=
  String.join (chunks.map fun c => c.text ++ "\n")

/-- The generated text of a program. -/
def generate (p : Program) (o : LoweringOptions) (labels : LabelSource := .fresh) :
    Except LoweringFault String :=
  (p.lower o labels).map fun (chunks, _) => textOf chunks

end Program

/-- A writer that accepts a number of writes, or any number, and then fails with a
    message. It remembers how often it was called and what it accepted. -/
structure Writer where
  /-- How many more writes succeed; `none` if all do. -/
  room : Option Nat := none
  /-- What is wrong when a write fails. -/
  complaint : String := ""
  /-- How many writes were tried. -/
  calls : Nat := 0
  /-- The chunks that were written, last first. -/
  written : List Chunk := []
  /-- The first failure. -/
  failure? : Option String := none

namespace Writer

/-- Write one chunk, unless a write has failed before. -/
def write (w : Writer) (c : Chunk) : Writer :=
  match w.failure? with
  | some _ => w
  | none =>
    match w.room with
    | none => { w with calls := w.calls + 1, written := c :: w.written }
    | some 0 => { w with calls := w.calls + 1, failure? := some w.complaint }
    | some (n + 1) =>
      { w with room := some n, calls := w.calls + 1, written := c :: w.written }

/-- Write chunks in order. -/
def writeAll (w : Writer) (chunks : List Chunk) : Writer :=
  chunks.foldl write w

/-- The text that was written. -/
def text (w : Writer) : String :=
  Program.textOf w.written.reverse

end Writer

end TapeCompiler
