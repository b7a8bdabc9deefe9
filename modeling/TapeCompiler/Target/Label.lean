import TapeCompiler.Target.Layout
import TapeCompiler.Text.Bytes

/-!
# Labels

Every loop needs two labels that occur nowhere else. A label source hands them out. A
counter numbers them, so that the same program always gets the same labels. Any other
source is known by its answers: a label for each hint, which may depend on the hints
before. A random one puts a random identifier behind each hint, so that labels differ
between programs too.
-/

namespace TapeCompiler

/-- A source of labels. -/
inductive LabelSource
  /-- Numbers the labels; holds how many were issued. -/
  | counter (issued : Nat)
  /-- Answers a hint by way of the hints before it, which it holds, the last one first. -/
  | other (answer : List String → String → String) (asked : List String)

namespace LabelSource

/-- A counter that has issued nothing. -/
def fresh : LabelSource := counter 0

/-- A source that puts random identifiers behind the hints. -/
def random (identifiers : Nat → String) : LabelSource :=
  other (fun asked hint => s!"{hint}_{identifiers asked.length}") []

/-- A label for the given hint, and the source after handing it out. -/
def next (hint : String) : LabelSource → String × LabelSource
  | counter n => (s!"{hint}_{n}", counter (n + 1))
  | other answer asked => (answer asked hint, other answer (hint :: asked))

/-- How many labels were handed out. -/
def issued : LabelSource → Nat
  | counter n => n
  | other _ asked => asked.length

end LabelSource

/-- The ways to label loops. -/
inductive LabelScheme where
  | counter
  | random
  deriving DecidableEq, Repr

namespace LabelScheme

/-- The scheme with the given name. Any name but `random` means the counter. -/
def ofName (name : Bytes) : LabelScheme :=
  if name = "random" then random else counter

/-- The label source for one program, of the scheme; random labels take `identifiers`. -/
def source (identifiers : Nat → String) : LabelScheme → LabelSource
  | counter => .fresh
  | random => .random identifiers

end LabelScheme

/-- The two labels of a loop. -/
structure LoopLabels where
  /-- The start of the body. -/
  body : String
  /-- The test that leads back to the body. -/
  condition : String
  deriving DecidableEq, Repr

/-- The labels of a new loop, and the source after handing them out. -/
def LabelSource.loop (labels : LabelSource) : LoopLabels × LabelSource :=
  let (body, labels) := labels.next Layout.bodyHint
  let (condition, labels) := labels.next Layout.conditionHint
  (⟨body, condition⟩, labels)

end TapeCompiler
