import Mathlib.Computability.StateTransition
import Mathlib.Logic.Function.Basic
import TapeCompiler.Source.Token
import TapeCompiler.Text.Bytes

/-!
# What commands mean

A program works on a tape of bytes, one for each 64-bit address, with a data pointer,
the input that is left and the output so far (`Tape`). Cells hold bytes and wrap
around, the pointer is not checked, and reading at the end of the input gives 255.

The meaning of a list of commands is a machine that goes through it with a program
counter (`Reference.step`). A bracket that is to be jumped over, or back over, leads
behind its partner, which is found by counting brackets.

What a machine does is said with `StateTransition.Reaches`. Two observations of a
run matter: where it halts, and which finite outputs it has produced on the way,
halting or not (`Produces`).
-/

namespace TapeCompiler

open StateTransition

/-- What a program works on. -/
structure Tape where
  memory : UInt64 → UInt8
  /-- The data pointer. -/
  pointer : UInt64
  /-- The input not read yet. -/
  input : Bytes
  /-- The output so far. -/
  output : Bytes

namespace Tape

/-- A tape of zeros with the data pointer at `origin`. -/
def blank (origin : UInt64) (input : Bytes) : Tape where
  memory := fun _ => 0
  pointer := origin
  input
  output := []

/-- The cell at the data pointer. -/
def cell (t : Tape) : UInt8 :=
  t.memory t.pointer

/-- Put a value into the current cell. -/
def store (t : Tape) (v : UInt8) : Tape :=
  { t with memory := Function.update t.memory t.pointer v }

/-- What a command other than a bracket does; brackets only decide where to go on. -/
def apply (t : Tape) : Command → Tape
  | .right => { t with pointer := t.pointer + 1 }
  | .left => { t with pointer := t.pointer - 1 }
  | .add => t.store (t.cell + 1)
  | .sub => t.store (t.cell - 1)
  | .put => { t with output := t.output ++ [t.cell] }
  | .get =>
    match t.input with
    | [] => t.store 255
    | b :: rest => { t.store b with input := rest }
  | .enter | .leave => t

/-- What a list of commands without brackets does. -/
def perform (t : Tape) (cs : List Command) : Tape :=
  cs.foldl apply t

@[simp] theorem perform_nil (t : Tape) : t.perform [] = t := rfl

@[simp] theorem perform_cons (t : Tape) (c : Command) (cs : List Command) :
    t.perform (c :: cs) = (t.apply c).perform cs := rfl

theorem perform_append (t : Tape) (cs ds : List Command) :
    t.perform (cs ++ ds) = (t.perform cs).perform ds :=
  List.foldl_append

@[simp] theorem cell_store (t : Tape) (v : UInt8) : (t.store v).cell = v :=
  Function.update_self ..

@[simp] theorem store_store (t : Tape) (v w : UInt8) : (t.store v).store w = t.store w := by
  simp [store]

@[simp] theorem store_cell (t : Tape) : t.store t.cell = t := by
  simp [store, cell]

/-- No command takes output back. -/
theorem output_apply (t : Tape) (c : Command) : t.output <+: (t.apply c).output := by
  cases c with
  | put => exact List.prefix_append ..
  | get => cases h : t.input <;> simp [apply, h, store]
  | _ => exact List.prefix_rfl

/-! ## Runs of one command -/

theorem perform_right (t : Tape) (n : Nat) :
    t.perform (List.replicate n .right) = { t with pointer := t.pointer + UInt64.ofNat n } := by
  induction n generalizing t with
  | zero => simp
  | succ n ih =>
    rw [List.replicate_succ, perform_cons, ih, apply, UInt64.ofNat_add, UInt64.add_comm (UInt64.ofNat n),
      ← UInt64.add_assoc]
    rfl

theorem perform_left (t : Tape) (n : Nat) :
    t.perform (List.replicate n .left) = { t with pointer := t.pointer - UInt64.ofNat n } := by
  induction n generalizing t with
  | zero => simp
  | succ n ih =>
    have hsub : t.pointer - 1 - UInt64.ofNat n = t.pointer - (UInt64.ofNat n + 1) := by grind
    rw [List.replicate_succ, perform_cons, ih, apply, UInt64.ofNat_add, hsub]
    rfl

theorem perform_add (t : Tape) (n : Nat) :
    t.perform (List.replicate n .add) = t.store (t.cell + UInt8.ofNat n) := by
  induction n generalizing t with
  | zero => simp
  | succ n ih =>
    rw [List.replicate_succ, perform_cons, ih, apply, cell_store, store_store, UInt8.ofNat_add,
      UInt8.add_comm (UInt8.ofNat n), ← UInt8.add_assoc]
    rfl

theorem perform_sub (t : Tape) (n : Nat) :
    t.perform (List.replicate n .sub) = t.store (t.cell - UInt8.ofNat n) := by
  induction n generalizing t with
  | zero => simp
  | succ n ih =>
    have hsub : t.cell - 1 - UInt8.ofNat n = t.cell - (UInt8.ofNat n + 1) := by grind
    rw [List.replicate_succ, perform_cons, ih, apply, cell_store, store_store, UInt8.ofNat_add, hsub]
    rfl

end Tape

/-! ## Runs of machines -/

section Runs

variable {σ τ : Type*} {f : σ → Option σ} {g : τ → Option τ}

/-- The run of a machine from `a` has, at some point, an output that starts with
    `out`. -/
def Produces (f : σ → Option σ) (output : σ → Bytes) (a : σ) (out : Bytes) : Prop :=
  ∃ b, Reaches f a b ∧ out <+: output b

/-- Steps never take output back. -/
def Grows (f : σ → Option σ) (output : σ → Bytes) : Prop :=
  ∀ a b, f a = some b → output a <+: output b

theorem Grows.reaches {output : σ → Bytes} (hf : Grows f output) {a b : σ} (h : Reaches f a b) :
    output a <+: output b := by
  induction h with
  | refl => exact List.prefix_rfl
  | tail _ hbc ih => exact ih.trans (hf _ _ hbc)

/-- The first steps of a run produce nothing that the rest does not. -/
theorem Grows.produces_iff {output : σ → Bytes} (hf : Grows f output) {a b : σ}
    (h : Reaches f a b) (out : Bytes) : Produces f output a out ↔ Produces f output b out := by
  constructor
  · rintro ⟨c, hac, hc⟩
    rcases reaches_total h hac with hbc | hcb
    · exact ⟨c, hbc, hc⟩
    · exact ⟨b, .refl, hc.trans (hf.reaches hcb)⟩
  · rintro ⟨c, hbc, hc⟩
    exact ⟨c, Relation.ReflTransGen.trans h hbc, hc⟩

/-- A machine that keeps up with another one produces the same. -/
theorem produces_iff_of_respects {outf : σ → Bytes} {outg : τ → Bytes} {tr : σ → τ → Prop}
    (H : Respects f g tr) (hout : ∀ a b, tr a b → outf a = outg b) (hg : Grows g outg) {a : σ} {b : τ}
    (hab : tr a b) (out : Bytes) : Produces f outf a out ↔ Produces g outg b out := by
  constructor
  · rintro ⟨a', ha', hpre⟩
    obtain ⟨b', htr, hb'⟩ := tr_reaches H hab ha'
    exact ⟨b', hb', hout a' b' htr ▸ hpre⟩
  · rintro ⟨b', hb', hpre⟩
    -- `g` may be between two states that `f` knows; the later one has the output too.
    obtain ⟨a'', b'', hcatch, htr, ha''⟩ := tr_reaches_rev H hab hb'
    exact ⟨a'', ha'', hout a'' b'' htr ▸ hpre.trans (hg.reaches hcatch)⟩

end Runs

/-! ## Running a list of commands -/

/-- How many commands stand before the first `closing` one that has no partner,
    while `depth` brackets are open. -/
def partner (opening closing : Command) (depth : Nat) : List Command → Option Nat
  | [] => none
  | c :: cs =>
    if c = closing then
      match depth with
      | 0 => some 0
      | depth + 1 => (partner opening closing depth cs).map (· + 1)
    else if c = opening then
      (partner opening closing (depth + 1) cs).map (· + 1)
    else
      (partner opening closing depth cs).map (· + 1)

/-- A list of commands being run: the index of the next command, and the tape. -/
structure Reference where
  pc : Nat
  tape : Tape

namespace Reference

/-- The index of the bracket that closes the loop opened at `i`. -/
def closing? (cs : List Command) (i : Nat) : Option Nat :=
  (partner .enter .leave 0 (cs.drop (i + 1))).map (i + 1 + ·)

/-- The index of the bracket that opens the loop closed at `i`. -/
def opening? (cs : List Command) (i : Nat) : Option Nat :=
  (partner .leave .enter 0 (cs.take i).reverse).map (i - 1 - ·)

/-- Do the next command; behind the last one there is nothing to do. -/
def step (cs : List Command) (s : Reference) : Option Reference :=
  match cs[s.pc]? with
  | none => none
  | some .enter =>
    if s.tape.cell = 0 then (closing? cs s.pc).map fun i => { s with pc := i + 1 }
    else some { s with pc := s.pc + 1 }
  | some .leave =>
    if s.tape.cell = 0 then some { s with pc := s.pc + 1 }
    else (opening? cs s.pc).map fun i => { s with pc := i + 1 }
  | some c => some { pc := s.pc + 1, tape := s.tape.apply c }

/-- Running the commands on the tape `t` comes to the end of the list, and leaves
    the tape `t'`. -/
def HaltsWith (cs : List Command) (t t' : Tape) : Prop :=
  Reaches (step cs) ⟨0, t⟩ ⟨cs.length, t'⟩

/-- Running the commands on the tape `t` has, at some point, an output that starts
    with `out`. -/
def Outputs (cs : List Command) (t : Tape) (out : Bytes) : Prop :=
  Produces (step cs) (·.tape.output) ⟨0, t⟩ out

end Reference

end TapeCompiler
