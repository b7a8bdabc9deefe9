import TapeCompiler.Proofs.CText
import TapeCompiler.Proofs.Parsing

/-!
# C does what the source says

Executing the statements of a tree goes along with running the tree: a leaf is done by
its copies of a statement, and a loop by testing it once
(`C.Execution.respects`). The sums in cell assignments are exact, but only their
remainder reaches the cell, so a count of any size acts as that many single steps
(`C.Execution.step_counted`).

The main result is `C.generate_c_simulates`: for every source that parses, the
statements of the generated text simulate its commands, wherever the tape lies.
-/

namespace TapeCompiler.C

open StateTransition

namespace Execution

theorem ofInt_natCast_byte (n : Nat) : UInt8.ofInt n = UInt8.ofNat n := by
  have hmod : ((n : Int) % 2 ^ 8).toNat = n % 2 ^ 8 := by omega
  rw [UInt8.ofInt, hmod, UInt8.ofNat_mod_size]

theorem ofInt_natCast_address (n : Nat) : UInt64.ofInt n = UInt64.ofNat n := by
  have hmod : ((n : Int) % 2 ^ 64).toNat = n % 2 ^ 64 := by omega
  rw [UInt64.ofInt, hmod, UInt64.ofNat_mod_size]

/-- Only the remainder of an exact sum reaches the cell. -/
theorem ofInt_sum (v : UInt8) (n : Int) : UInt8.ofInt (v.toNat + n) = v + UInt8.ofInt n := by
  rw [UInt8.ofInt_add, ofInt_natCast_byte, UInt8.ofNat_toNat]

/-- One statement for a counted step. -/
theorem step_counted (k : Nat) (s : Step) (rest : List Statement) (t : Tape) :
    step ⟨.counted k s :: rest, t⟩ = some ⟨rest, t.perform (List.replicate k s.command)⟩ := by
  cases s with
  | moveRight =>
    rw [Step.command, Tape.perform_right, ← ofInt_natCast_address]
    rfl
  | moveLeft =>
    rw [Step.command, Tape.perform_left, ← ofInt_natCast_address, UInt64.sub_eq_add_neg,
      ← UInt64.ofInt_neg]
    rfl
  | increment =>
    rw [Step.command, Tape.perform_add, ← ofInt_natCast_byte, ← ofInt_sum]
    rfl
  | decrement =>
    rw [Step.command, Tape.perform_sub, ← ofInt_natCast_byte, UInt8.sub_eq_add_neg,
      ← UInt8.ofInt_neg, ← ofInt_sum]
    rfl

/-- Copies of the statement for a counted step. -/
theorem reaches_counted (n k : Nat) (s : Step) (rest : List Statement) (t : Tape) :
    Reaches₁ step ⟨List.replicate (n + 1) (.counted k s) ++ rest, t⟩
      ⟨rest, t.perform (List.replicate ((n + 1) * k) s.command)⟩ := by
  induction n generalizing t with
  | zero =>
    rw [Nat.zero_add, Nat.one_mul]
    exact .single (step_counted k s rest t)
  | succ n ih =>
    have hrest := ih (t.perform (List.replicate k s.command))
    rw [← Tape.perform_append, List.replicate_append_replicate] at hrest
    rw [List.replicate_succ, List.cons_append, Nat.succ_mul, Nat.add_comm _ k]
    exact .head (step_counted k s _ t) hrest

theorem step_get (rest : List Statement) (t : Tape) :
    step ⟨.get :: rest, t⟩ = some ⟨rest, t.perform [.get]⟩ := by
  rw [Tape.perform_cons, Tape.perform_nil]
  cases hinput : t.input with
  | nil =>
    have hend : UInt8.ofInt (-1) = 255 := by decide
    simp only [step, Tape.apply, hinput, hend]
  | cons b input =>
    simp only [step, Tape.apply, hinput, ofInt_natCast_byte, UInt8.ofNat_toNat]

/-- The statements of a leaf do what the leaf stands for. -/
theorem reaches_leaf {o : LoweringOptions} {s : Stmt} (hs : s.isLoop = false) (hk : s.isKnown)
    (hc : s.isCounted) (rest : List Statement) (t : Tape) :
    Reaches₁ step ⟨s.statements o ++ rest, t⟩ ⟨rest, t.perform s.commands⟩ := by
  cases s with
  | repeated st pos count =>
    obtain ⟨n, hn, htotal⟩ := o.copies_eq_succ (of_decide_eq_true hc)
    have hrun := reaches_counted n (o.each count) st rest t
    rw [htotal] at hrun
    rwa [Stmt.statements, hn]
  | printChar => exact .single rfl
  | readChar => exact .single (step_get rest t)
  | loop => cases hs
  | foreign | absent => cases hk

/-- Executing the statements of a tree keeps up with running the tree. -/
theorem respects (o : LoweringOptions) : Respects Flow.step step
    (fun a e => Stmt.Sound a.todo ∧ e = ⟨Stmt.statementsList o a.todo, a.tape⟩) := by
  rintro ⟨todo, t⟩ e ⟨hsound, rfl⟩
  cases todo with
  | nil => rfl
  | cons s rest =>
    cases hs : s.isLoop with
    | false =>
      rw [Flow.step_leaf hs]
      exact ⟨_, ⟨hsound.tail, rfl⟩, reaches_leaf hs hsound.head.1 hsound.head.2 _ t⟩
    | true =>
      cases s with
      | loop pos body close =>
        obtain ⟨-, hbody, hrest⟩ := (Stmt.everywhere_loop ..).1 hsound
        rw [Flow.step_loop]
        by_cases hcell : t.cell = 0
        · rw [if_pos hcell]
          refine ⟨_, ⟨hrest, rfl⟩, .single ?_⟩
          exact if_pos hcell
        · rw [if_neg hcell]
          refine ⟨_, ⟨(Stmt.everywhere_append ..).2 ⟨hbody, hsound⟩, rfl⟩, .single ?_⟩
          rw [Stmt.statementsList_append]
          exact if_neg hcell
      | _ => cases hs

theorem grows : Grows step (·.tape.output) := by
  rintro ⟨todo, t⟩ e h
  cases todo with
  | nil => cases h
  | cons s rest =>
    cases s with
    | move | change =>
      obtain rfl := Option.some.inj h
      exact List.prefix_rfl
    | put =>
      obtain rfl := Option.some.inj h
      exact List.prefix_append ..
    | get =>
      rw [step_get] at h
      obtain rfl := Option.some.inj h
      exact t.output_apply .get
    | loop body =>
      rw [step] at h
      split at h <;> cases h <;> exact List.prefix_rfl

/-- The statements of a program follow its tree. -/
theorem follows (o : LoweringOptions) {body : List Stmt} (hsound : Stmt.Sound body) (t : Tape) :
    Follows step (·.tape.output) (fun t e => e = ⟨[], t⟩) ⟨body, t⟩ ⟨Stmt.statementsList o body, t⟩ := by
  refine .of_respects (respects o) grows ?_ ?_ ⟨hsound, rfl⟩
  · rintro a e ⟨-, rfl⟩
    rfl
  · rintro t e ⟨-, rfl⟩
    rfl

end Execution

/-- Generated C does what the source says. -/
theorem generate_c_simulates {filename : String} {src : Bytes} {program : Program}
    (h : Program.parse (.ofBytes filename src) = .ok program) (optimized : Bool) :
    ∃ text statements, program.generate { target := C.target, optimized } = .ok text ∧
      read text = some statements ∧
      ∀ (origin : UInt64) (input : Bytes),
        Simulates Execution.step (·.tape.output) (fun t e => e = ⟨[], t⟩)
          ⟨statements, .blank origin input⟩ src.commands (.blank origin input) := by
  obtain ⟨⟨hsound, -⟩, hcommands⟩ := Program.canonical_of_parse h
  have hknown := hsound.imp fun s hs => hs.1
  refine ⟨_, _, Program.generate_eq hknown (options optimized), read_text optimized hknown, ?_⟩
  intro origin input
  rw [← hcommands]
  exact (Execution.follows (options optimized) hsound _).simulates hsound

/-- The source `,[.[-],]` parses, so the statements of its text echo `Hi`. -/
theorem generate_c_simulates_echo : ∃ program,
    Program.parse (.ofBytes "echo.bf" [0x2C, 0x5B, 0x2E, 0x5B, 0x2D, 0x5D, 0x2C, 0x5D]) = .ok program ∧
      ∀ optimized, ∃ text statements,
        program.generate { target := C.target, optimized } = .ok text ∧
          read text = some statements ∧
          Simulates Execution.step (·.tape.output) (fun t e => e = ⟨[], t⟩)
            ⟨statements, .blank 0x4000 [0x48, 0x69]⟩
            [.get, .enter, .put, .enter, .sub, .leave, .get, .leave] (.blank 0x4000 [0x48, 0x69]) := by
  obtain ⟨program, hparse⟩ : ∃ program, Program.parse
      (.ofBytes "echo.bf" [0x2C, 0x5B, 0x2E, 0x5B, 0x2D, 0x5D, 0x2C, 0x5D]) = .ok program := ⟨_, rfl⟩
  refine ⟨program, hparse, fun optimized => ?_⟩
  obtain ⟨text, statements, htext, hread, hsimulates⟩ := generate_c_simulates hparse optimized
  exact ⟨text, statements, htext, hread, hsimulates 0x4000 [0x48, 0x69]⟩

end TapeCompiler.C
