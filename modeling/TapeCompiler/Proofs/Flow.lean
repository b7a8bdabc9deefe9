import TapeCompiler.Proofs.Scheme
import TapeCompiler.Proofs.Tape

/-!
# Running trees

Between the commands of a source and the text of a target stands the tree, and it
has a meaning of its own: the statements that are left to do are a list, a leaf is
done at once, and a loop whose cell is not zero puts its body in front of itself
(`Flow.step`).

A machine that goes through the items of a program *realises* the tree
(`Realises`) if it does each leaf, and each test of a loop, in at least one step.
Then it keeps up with the tree step by step (`Realises.respects`), so it halts
exactly if the tree does, with the same tape, and produces the same output.
-/

namespace TapeCompiler

open StateTransition

/-- A tree being run: the statements left to do, and the tape. -/
structure Flow where
  todo : List Stmt
  tape : Tape

namespace Flow

/-- Do the first statement, or test the loop that stands first. -/
def step : Flow → Option Flow
  | ⟨[], _⟩ => none
  | ⟨.loop pos body close :: rest, t⟩ =>
    if t.cell = 0 then some ⟨rest, t⟩ else some ⟨body ++ .loop pos body close :: rest, t⟩
  | ⟨s :: rest, t⟩ => some ⟨rest, t.perform s.commands⟩

theorem step_leaf {s : Stmt} (hs : s.isLoop = false) (rest : List Stmt) (t : Tape) :
    step ⟨s :: rest, t⟩ = some ⟨rest, t.perform s.commands⟩ := by
  cases s with
  | loop => cases hs
  | _ => rfl

theorem step_loop (pos : Pos) (body : List Stmt) (close : Pos) (rest : List Stmt) (t : Tape) :
    step ⟨.loop pos body close :: rest, t⟩ =
      some ⟨if t.cell = 0 then rest else body ++ .loop pos body close :: rest, t⟩ := by
  rw [step]
  split <;> rfl

/-- Only the end of a program has no next step. -/
theorem todo_eq_nil {a : Flow} (h : a.step = none) : a.todo = [] := by
  obtain ⟨todo, t⟩ := a
  cases todo with
  | nil => rfl
  | cons s rest =>
    cases s with
    | loop pos body close => cases (step_loop pos body close rest t).symm.trans h
    | _ => cases h

end Flow

/-! ## Machines that follow a tree -/

/-- A machine in the state `m` does what the tree does in the state `a`: it halts if
    the tree comes to its end, and only then, in a state that is `Final` for the tape
    that is left, and it has the same output. -/
structure Follows {σ : Type*} (step : σ → Option σ) (output : σ → Bytes)
    (Final : Tape → σ → Prop) (a : Flow) (m : σ) : Prop where
  halts {t : Tape} : Reaches Flow.step a ⟨[], t⟩ → ∃ m', m' ∈ eval step m ∧ Final t m'
  of_halts {m' : σ} : m' ∈ eval step m → ∃ t, Reaches Flow.step a ⟨[], t⟩ ∧ Final t m'
  produces_iff (out : Bytes) :
    Produces Flow.step (·.tape.output) a out ↔ Produces step output m out

namespace Follows

variable {σ : Type*} {step : σ → Option σ} {output : σ → Bytes} {Final : Tape → σ → Prop}
  {a : Flow} {m m₀ : σ}

/-- A machine that keeps up with the tree step by step follows it. -/
theorem of_respects {tr : Flow → σ → Prop} (H : Respects Flow.step step tr)
    (hgrows : Grows step output) (hout : ∀ a m, tr a m → a.tape.output = output m)
    (hfinal : ∀ t m, tr ⟨[], t⟩ m → Final t m) (htr : tr a m) : Follows step output Final a m where
  halts {t} hrun := by
    have hend : (⟨[], t⟩ : Flow) ∈ eval Flow.step a := mem_eval.2 ⟨hrun, rfl⟩
    obtain ⟨m', hmatch, hm'⟩ := tr_eval H htr hend
    exact ⟨m', hm', hfinal t m' hmatch⟩
  of_halts {m'} hm' := by
    obtain ⟨⟨todo, t⟩, hmatch, hend⟩ := tr_eval_rev H htr hm'
    obtain ⟨hrun, hnone⟩ := mem_eval.1 hend
    obtain rfl : todo = [] := Flow.todo_eq_nil hnone
    exact ⟨t, hrun, hfinal t m' hmatch⟩
  produces_iff := produces_iff_of_respects H hout hgrows htr

/-- A machine may need some steps before it follows a tree. -/
theorem of_reaches (h : Follows step output Final a m₀) (hgrows : Grows step output)
    (hm : Reaches step m m₀) : Follows step output Final a m where
  halts := by
    rw [reaches_eval hm]
    exact h.halts
  of_halts := by
    rw [reaches_eval hm]
    exact h.of_halts
  produces_iff out := (h.produces_iff out).trans (hgrows.produces_iff hm out).symm

end Follows

/-! ## Machines that go through the items of a program -/

/-- The items `whole` of a program, up to `stop`, make a machine do what the tree
    does. `Here pc t` are the states of the machine that stand at `pc` with the tape
    `t`, and `Done t` those in which it has halted with the tape `t`. -/
structure Realises {α σ : Type*} (S : Scheme α) (whole : List α) (stop : Nat)
    (step : σ → Option σ) (output : σ → Bytes) (Here : Nat → Tape → σ → Prop)
    (Done : Tape → σ → Prop) : Prop where
  /-- The items of a leaf do what the leaf stands for. -/
  leaf {s : Stmt} {pc : Nat} {t : Tape} {m : σ} : s.isLoop = false → s.isKnown → s.isCounted →
    Scheme.Sits whole pc (S.leaf s) → Here pc t m →
    ∃ m', Here (pc + (S.leaf s).length) (t.perform s.commands) m' ∧ Reaches₁ step m m'
  /-- Before a loop, and at the end of its body, the cell decides where to go on. -/
  test {n pc : Nat} {pos close : Pos} {body : List Stmt} {t : Tape} {m : σ} :
    Scheme.Sits whole pc (S.stmt n (.loop pos body close)) →
    (Here pc t m ∨ Here (pc + (S.enter n).length + (S.block (n + 2) body).length) t m) →
    ∃ m', Here (if t.cell = 0 then pc + (S.stmt n (.loop pos body close)).length
        else pc + (S.enter n).length) t m' ∧ Reaches₁ step m m'
  /-- Where nothing is left to do the machine comes to a halt. -/
  halt {t : Tape} {m : σ} : Here stop t m → ∃ m', Done t m' ∧ Reaches step m m'
  done {t : Tape} {m : σ} : Done t m → step m = none
  output_here {pc : Nat} {t : Tape} {m : σ} : Here pc t m → t.output = output m
  output_done {t : Tape} {m : σ} : Done t m → t.output = output m
  grows : Grows step output

namespace Realises

variable {α σ : Type*} {S : Scheme α} {whole : List α} {stop : Nat} {step : σ → Option σ}
  {output : σ → Bytes} {Here : Nat → Tape → σ → Prop} {Done : Tape → σ → Prop}

/-- The machine stands where the tree does. -/
def Matches (S : Scheme α) (whole : List α) (stop : Nat) (Here : Nat → Tape → σ → Prop)
    (Done : Tape → σ → Prop) (a : Flow) (m : σ) : Prop :=
  Stmt.Sound a.todo ∧
    ((a.todo = [] ∧ Done a.tape m) ∨
      (a.todo ≠ [] ∧ ∃ pc, S.At whole stop pc a.todo ∧ Here pc a.tape m))

/-- A machine that gets to a place of the tree matches it, once it has halted if
    there is nothing left to do. -/
theorem arrive (h : Realises S whole stop step output Here Done) {pc : Nat} {todo : List Stmt} {t : Tape}
    {m m' : σ} (hsound : Stmt.Sound todo) (hat : S.At whole stop pc todo) (hhere : Here pc t m')
    (hreach : Reaches₁ step m m') :
    ∃ m'', Matches S whole stop Here Done ⟨todo, t⟩ m'' ∧ Reaches₁ step m m'' := by
  cases todo with
  | nil =>
    cases hat
    obtain ⟨m'', hdone, hhalt⟩ := h.halt hhere
    exact ⟨m'', ⟨hsound, .inl ⟨rfl, hdone⟩⟩, hreach.trans_left hhalt⟩
  | cons s rest => exact ⟨m', ⟨hsound, .inr ⟨by simp, pc, hat, hhere⟩⟩, hreach⟩

/-- A loop is tested, wherever the machine stands before it. -/
theorem respects_loop (h : Realises S whole stop step output Here Done) {n pc : Nat} {pos close : Pos}
    {body rest : List Stmt} {t : Tape} {m : σ}
    (hsound : Stmt.Sound (.loop pos body close :: rest))
    (hsits : Scheme.Sits whole pc (S.stmt n (.loop pos body close)))
    (hat : S.At whole stop (pc + (S.stmt n (.loop pos body close)).length) rest)
    (hhere : Here pc t m ∨ Here (pc + (S.enter n).length + (S.block (n + 2) body).length) t m) :
    ∃ b m', Flow.step ⟨.loop pos body close :: rest, t⟩ = some b ∧
      Matches S whole stop Here Done b m' ∧ Reaches₁ step m m' := by
  obtain ⟨m', hhere', hreach⟩ := h.test hsits hhere
  obtain ⟨-, hbody, hrest⟩ := (Stmt.everywhere_loop ..).1 hsound
  by_cases hcell : t.cell = 0
  · rw [if_pos hcell] at hhere'
    obtain ⟨m'', hmatch⟩ := h.arrive hrest hat hhere' hreach
    exact ⟨_, m'', by rw [Flow.step_loop, if_pos hcell], hmatch⟩
  · rw [if_neg hcell] at hhere'
    obtain ⟨m'', hmatch⟩ := h.arrive ((Stmt.everywhere_append ..).2 ⟨hbody, hsound⟩)
      (.body hsits hat) hhere' hreach
    exact ⟨_, m'', by rw [Flow.step_loop, if_neg hcell], hmatch⟩

/-- The machine keeps up with the tree. -/
theorem respects (h : Realises S whole stop step output Here Done) :
    Respects Flow.step step (Matches S whole stop Here Done) := by
  rintro ⟨todo, t⟩ m ⟨hsound, ⟨rfl, hdone⟩ | ⟨hne, pc, hat, hhere⟩⟩
  · exact h.done hdone
  · cases hat with
    | stop => exact absurd rfl hne
    | @ahead n _ s rest hsits hat =>
      cases hs : s.isLoop with
      | false =>
        rw [Scheme.stmt_leaf hs] at hsits hat
        obtain ⟨m', hhere', hreach⟩ := h.leaf hs hsound.head.1 hsound.head.2 hsits hhere
        rw [Flow.step_leaf hs]
        exact h.arrive hsound.tail hat hhere' hreach
      | true =>
        cases s with
        | loop pos body close =>
          obtain ⟨b, m', hstep, hmatch⟩ := h.respects_loop hsound hsits hat (.inl hhere)
          rw [hstep]
          exact ⟨m', hmatch⟩
        | _ => cases hs
    | back hsits hat =>
      -- The end of a body is left by the same test as the place before the loop.
      obtain ⟨b, m', hstep, hmatch⟩ := h.respects_loop hsound hsits hat (.inr hhere)
      rw [hstep]
      exact ⟨m', hmatch⟩

/-- A machine at the start of a program stands where the tree does. -/
theorem start (h : Realises S whole stop step output Here Done) {n pc : Nat} {body : List Stmt} {t : Tape}
    {m : σ} (hsound : Stmt.Sound body) (hsits : Scheme.Sits whole pc (S.block n body))
    (hstop : pc + (S.block n body).length = stop) (hhere : Here pc t m) :
    ∃ m', Matches S whole stop Here Done ⟨body, t⟩ m' ∧ Reaches step m m' := by
  subst hstop
  have hat := Scheme.At.block hsits .stop
  rw [List.append_nil] at hat
  cases body with
  | nil =>
    obtain ⟨m', hdone, hhalt⟩ := h.halt hhere
    exact ⟨m', ⟨hsound, .inl ⟨rfl, hdone⟩⟩, hhalt⟩
  | cons s rest => exact ⟨m, ⟨hsound, .inr ⟨by simp, pc, hat, hhere⟩⟩, .refl⟩

/-- What a machine that realises the tree does, from its start on. -/
theorem follows (h : Realises S whole stop step output Here Done) {n pc : Nat} {body : List Stmt}
    {t : Tape} {m : σ} (hsound : Stmt.Sound body) (hsits : Scheme.Sits whole pc (S.block n body))
    (hstop : pc + (S.block n body).length = stop) (hhere : Here pc t m) :
    Follows step output Done ⟨body, t⟩ m := by
  obtain ⟨m₀, hmatch, hm₀⟩ := h.start hsound hsits hstop hhere
  refine Follows.of_reaches (.of_respects h.respects h.grows ?_ ?_ hmatch) h.grows hm₀
  · rintro ⟨todo, t⟩ m ⟨-, ⟨-, hdone⟩ | ⟨-, pc, -, hhere⟩⟩
    · exact h.output_done hdone
    · exact h.output_here hhere
  · rintro t m ⟨-, ⟨-, hdone⟩ | ⟨hne, -⟩⟩
    · exact hdone
    · exact absurd rfl hne

end Realises

end TapeCompiler
