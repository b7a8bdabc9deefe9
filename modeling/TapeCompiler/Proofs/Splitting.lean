import TapeCompiler.Proofs.Lowering
import TapeCompiler.Target.Assembly

/-!
# Splitting runs

A run can be split again into leaves that count one each (`Stmt.split`). There are two ways to
lower a run: to repeat the chunk of a single step, or to write one chunk that carries the count.
On leaves that count one they are the same, so both bring a split tree down to what the first
makes of the tree before it was split (`Stmt.lowerList_splitList`). That holds from any state of
lowering and for all trees, for those that cannot be lowered as well: the fault is the same.

The main result is `Program.lower_split`.
-/

namespace TapeCompiler

namespace Stmt

mutual

/-- The statement with every run in it split into leaves that count one. -/
def split : Stmt → List Stmt
  | .repeated step pos n => List.replicate n (.repeated step pos 1)
  | .loop pos body close => [.loop pos (splitList body) close]
  | s => [s]

/-- The list with every run in it split into leaves that count one. -/
def splitList : List Stmt → List Stmt
  | [] => []
  | s :: rest => s.split ++ splitList rest

end

end Stmt

/-! ## Lowering a split tree -/

/-- A leaf that counts one is lowered to one chunk, optimised or not. -/
theorem Lowering.step_one (l : Lowering) (t : Target) (optimized : Bool) (step : Step) :
    l.step ⟨t, optimized⟩ step 1 = l.emit (t.step step 1) := by
  cases optimized <;> rfl

namespace Stmt

variable {t : Target}

/-- Leaves that count one are lowered to as many chunks. -/
theorem lowerList_replicate (optimized : Bool) (l : Lowering) (step : Step) (pos : Pos) (n : Nat)
    (rest : List Stmt) :
    lowerList ⟨t, optimized⟩ l (List.replicate n (.repeated step pos 1) ++ rest) =
      lowerList ⟨t, optimized⟩ (l.emitMany n (t.step step 1)) rest := by
  induction n generalizing l with
  | zero => rfl
  | succ n ih =>
    rw [List.replicate_succ, List.cons_append, lowerList, lower, Lowering.step_one]
    simp only
    rw [ih, Lowering.emitMany_succ]

/-- Lowering brings a split tree down to what lowering without optimisation makes of the
    tree. -/
theorem lowerList_splitList (optimized : Bool) (l : Lowering) (body : List Stmt) :
    lowerList ⟨t, optimized⟩ l (splitList body) = lowerList ⟨t, false⟩ l body := by
  induction body using listInduction generalizing l with
  | nil => rfl
  | leaf s rest hs ih =>
    cases s with
    | repeated step pos n =>
      rw [splitList, split, lowerList_replicate, ih]
      rfl
    | printChar | readChar => exact ih _
    | loop => cases hs
    | foreign | absent => rfl
  | loop pos body close rest ihbody ih =>
    rw [splitList, split, List.singleton_append, lowerList, lowerList, lower, lower]
    simp only [ihbody]
    cases lowerList ⟨t, false⟩ { l.emit (t.loopEnter l.labels.loop.1) with
      labels := l.labels.loop.2 } body with
    | error e => rfl
    | ok l' => exact ih _

end Stmt

namespace Program

/-- The program with every run in it split into leaves that count one. -/
def split (p : Program) : Program :=
  { p with body := Stmt.splitList p.body }

/-- Whatever the labels come from, and whether or not the program can be lowered. -/
theorem lower_split_eq (p : Program) (t : Target) (optimized : Bool) (labels : LabelSource) :
    p.split.lower ⟨t, optimized⟩ labels = p.lower ⟨t, false⟩ labels := by
  rw [lower, lower, split, Stmt.lowerList_splitList]

/-- For every target and after any number of labels, a program without optimisation, the split
    program without optimisation and the split program with it are lowered to the same chunks,
    so to the same text, and leave the counter in the same state. -/
theorem lower_split {p : Program} (hknown : Stmt.Everywhere (·.isKnown) p.body) (t : Target)
    (n : Nat) :
    ∃ chunks m, p.lower ⟨t, false⟩ (.counter n) = .ok (chunks, .counter m) ∧
      p.split.lower ⟨t, false⟩ (.counter n) = .ok (chunks, .counter m) ∧
      p.split.lower ⟨t, true⟩ (.counter n) = .ok (chunks, .counter m) ∧
      p.generate ⟨t, false⟩ (.counter n) = .ok (textOf chunks) ∧
      p.split.generate ⟨t, false⟩ (.counter n) = .ok (textOf chunks) ∧
      p.split.generate ⟨t, true⟩ (.counter n) = .ok (textOf chunks) := by
  have hlower := lower_counter hknown ⟨t, false⟩ n
  have hsplit : ∀ optimized, p.split.lower ⟨t, optimized⟩ (.counter n) =
      .ok (p.chunksAfter n ⟨t, false⟩, .counter (n + 2 * Stmt.loopCountList p.body)) :=
    fun optimized => (p.lower_split_eq t optimized _).trans hlower
  refine ⟨_, _, hlower, hsplit false, hsplit true, ?_, ?_, ?_⟩
  · rw [generate, hlower]
    rfl
  · rw [generate, hsplit]
    rfl
  · rw [generate, hsplit]
    rfl

/-- Two runs of the same step side by side and a loop in a loop, as assembly after four labels. -/
theorem lower_split_neighbours :
    let p : Program := ⟨{}, [.repeated .increment {} 2, .repeated .increment {} 3,
      .loop {} [.repeated .moveLeft {} 2, .loop {} [] {}] {}]⟩
    p.split.body = List.replicate 5 (.repeated .increment {} 1) ++
        [.loop {} [.repeated .moveLeft {} 1, .repeated .moveLeft {} 1, .loop {} [] {}] {}] ∧
      ∃ chunks m, p.lower ⟨Assembly.target, false⟩ (.counter 4) = .ok (chunks, .counter m) ∧
        p.split.lower ⟨Assembly.target, false⟩ (.counter 4) = .ok (chunks, .counter m) ∧
        p.split.lower ⟨Assembly.target, true⟩ (.counter 4) = .ok (chunks, .counter m) ∧
        p.generate ⟨Assembly.target, false⟩ (.counter 4) = .ok (textOf chunks) ∧
        p.split.generate ⟨Assembly.target, false⟩ (.counter 4) = .ok (textOf chunks) ∧
        p.split.generate ⟨Assembly.target, true⟩ (.counter 4) = .ok (textOf chunks) :=
  ⟨rfl, lower_split (by decide) Assembly.target 4⟩

end Program

end TapeCompiler
