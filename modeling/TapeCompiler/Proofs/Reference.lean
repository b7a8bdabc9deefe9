import TapeCompiler.Proofs.Flow

/-!
# Commands mean what their tree means

The reference machine finds the partner of a bracket by counting. In the commands of
a tree every bracket has one, and the count comes out where the loop ends
(`partner_append`), so the machine realises every sound tree (`Reference.realises`).
So a machine that follows the tree simulates the commands (`Follows.simulates`), and
that is what the correctness of a target says.
-/

namespace TapeCompiler

open StateTransition

/-! ## Partners of brackets -/

/-- Lists in which every `o` has its `c` and every `c` its `o`. -/
inductive Nested (o c : Command) : List Command → Prop
  | nil : Nested o c []
  | plain {x : Command} : x ≠ o → x ≠ c → Nested o c [x]
  | append {xs ys : List Command} : Nested o c xs → Nested o c ys → Nested o c (xs ++ ys)
  | wrap {xs : List Command} : Nested o c xs → Nested o c (o :: (xs ++ [c]))

theorem Nested.reverse {o c : Command} {xs : List Command} (h : Nested o c xs) :
    Nested c o xs.reverse := by
  induction h with
  | nil => exact .nil
  | plain ho hc => exact .plain hc ho
  | append _ _ ihx ihy =>
    rw [List.reverse_append]
    exact ihy.append ihx
  | @wrap xs _ ih =>
    have hxs : (o :: (xs ++ [c])).reverse = c :: (xs.reverse ++ [o]) := by simp
    rw [hxs]
    exact ih.wrap

section Partner

variable {o c : Command} {depth : Nat} {cs : List Command}

theorem partner_found : partner o c 0 (c :: cs) = some 0 := by
  simp [partner]

theorem partner_close : partner o c (depth + 1) (c :: cs) = (partner o c depth cs).map (· + 1) := by
  simp [partner]

theorem partner_open (hoc : o ≠ c) :
    partner o c depth (o :: cs) = (partner o c (depth + 1) cs).map (· + 1) := by
  cases depth <;> simp [partner, hoc]

theorem partner_plain {x : Command} (ho : x ≠ o) (hc : x ≠ c) :
    partner o c depth (x :: cs) = (partner o c depth cs).map (· + 1) := by
  cases depth <;> simp [partner, ho, hc]

end Partner

/-- Counting brackets runs over a nested list as if it were not there. -/
theorem partner_append {o c : Command} (hoc : o ≠ c) {xs : List Command} (h : Nested o c xs)
    (depth : Nat) (rest : List Command) :
    partner o c depth (xs ++ rest) = (partner o c depth rest).map (· + xs.length) := by
  induction h generalizing depth rest with
  | nil => simp
  | plain ho hc => exact partner_plain ho hc
  | append _ _ ihx ihy =>
    rw [List.append_assoc, ihx, ihy, Option.map_map, List.length_append]
    congr 1
    funext k
    simp only [Function.comp_apply]
    omega
  | @wrap xs _ ih =>
    have hxs : o :: (xs ++ [c]) ++ rest = o :: (xs ++ c :: rest) := by simp
    -- Behind the opening bracket the count is one higher, until its partner is met.
    rw [hxs, partner_open hoc, ih, partner_close]
    simp only [Option.map_map, List.length_cons, List.length_append, List.length_nil]
    congr 1
    funext k
    simp only [Function.comp_apply]
    omega

namespace Stmt

theorem commands_leaf {s : Stmt} (hs : s.isLoop = false) :
    ∀ c ∈ s.commands, c ≠ .enter ∧ c ≠ .leave := by
  intro c hc
  cases s with
  | repeated step =>
    obtain ⟨-, rfl⟩ := List.mem_replicate.1 hc
    cases step <;> decide
  | printChar | readChar =>
    obtain rfl := List.mem_singleton.1 hc
    decide
  | loop => cases hs
  | foreign | absent => cases hc

theorem nested_commandsList (body : List Stmt) : Nested .enter .leave (commandsList body) := by
  -- A list without brackets is nested, one command after the other.
  have hplain : ∀ cs : List Command, (∀ c ∈ cs, c ≠ .enter ∧ c ≠ .leave) →
      Nested .enter .leave cs := by
    intro cs hcs
    induction cs with
    | nil => exact .nil
    | cons c cs ih =>
      obtain ⟨hc, hcs⟩ := List.forall_mem_cons.1 hcs
      exact (Nested.plain hc.1 hc.2).append (ih hcs)
  induction body using listInduction with
  | nil => exact .nil
  | leaf s rest hs ih => exact (hplain _ (commands_leaf hs)).append ih
  | loop pos body close rest ihbody ih => exact ihbody.wrap.append ih

end Stmt

/-! ## The reference machine -/

/-- A tree written down as its commands. -/
def Scheme.commands : Scheme Command where
  leaf := Stmt.commands
  enter _ := [.enter]
  exit _ := [.leave]

@[simp] theorem Scheme.leaf_commands (s : Stmt) : Scheme.commands.leaf s = s.commands := rfl

@[simp] theorem Scheme.enter_commands (n : Nat) : Scheme.commands.enter n = [.enter] := rfl

@[simp] theorem Scheme.exit_commands (n : Nat) : Scheme.commands.exit n = [.leave] := rfl

@[simp] theorem Scheme.block_commands (n : Nat) (body : List Stmt) :
    Scheme.commands.block n body = Stmt.commandsList body := by
  induction body using Stmt.listInduction generalizing n with
  | nil => rfl
  | leaf s rest hs ih => rw [block_leaf hs, ih, leaf_commands, Stmt.commandsList]
  | loop pos body close rest ihbody ih =>
    rw [block_loop, ihbody, ih]
    simp [Stmt.commandsList, Stmt.commands]

namespace Reference

theorem step_plain {cs : List Command} {pc : Nat} {c : Command} (hc : cs[pc]? = some c)
    (h : c ≠ .enter ∧ c ≠ .leave) (t : Tape) :
    step cs ⟨pc, t⟩ = some ⟨pc + 1, t.apply c⟩ := by
  cases c with
  | enter => exact absurd rfl h.1
  | leave => exact absurd rfl h.2
  | _ => simp only [step, hc]

/-- Commands other than brackets are done one after the other. -/
theorem reaches_plain {whole cs : List Command} (hcs : ∀ c ∈ cs, c ≠ .enter ∧ c ≠ .leave) {pc : Nat}
    (hsits : Scheme.Sits whole pc cs) (t : Tape) :
    Reaches (step whole) ⟨pc, t⟩ ⟨pc + cs.length, t.perform cs⟩ := by
  induction cs generalizing pc t with
  | nil => exact .refl
  | cons c cs ih =>
    obtain ⟨hc, hcs⟩ := List.forall_mem_cons.1 hcs
    have hrest := ih hcs hsits.tail (t.apply c)
    rw [Nat.add_assoc, Nat.add_comm 1] at hrest
    exact .head (step_plain hsits.head hc t) hrest

section Loop

variable {whole xs : List Command} {pc : Nat} (hxs : Nested .enter .leave xs)
  (hsits : Scheme.Sits whole pc (.enter :: (xs ++ [.leave])))

include hxs hsits

theorem closing?_eq : closing? whole pc = some (pc + 1 + xs.length) := by
  obtain ⟨before, after, rfl, rfl⟩ := hsits
  have hdrop : (before ++ Command.enter :: (xs ++ [.leave]) ++ after).drop (before.length + 1) =
      xs ++ .leave :: after := by
    rw [← List.drop_drop, List.append_assoc, List.drop_left]
    simp
  rw [closing?, hdrop, partner_append (by decide) hxs, partner_found]
  simp

theorem opening?_eq : opening? whole (pc + 1 + xs.length) = some pc := by
  obtain ⟨before, after, rfl, rfl⟩ := hsits
  have hsplit : before ++ Command.enter :: (xs ++ [.leave]) ++ after =
      (before ++ .enter :: xs) ++ .leave :: after := by simp
  have hlength : (before ++ Command.enter :: xs).length = before.length + 1 + xs.length := by
    simp only [List.length_append, List.length_cons]
    omega
  have hreverse : (before ++ Command.enter :: xs).reverse =
      xs.reverse ++ .enter :: before.reverse := by simp
  rw [opening?, hsplit, List.take_left' hlength, hreverse, partner_append (by decide) hxs.reverse,
    partner_found]
  simp only [Option.map_some, List.length_reverse, Option.some.injEq]
  omega

/-- Before a loop the cell decides whether to go in or past the end. -/
theorem step_enter (t : Tape) : step whole ⟨pc, t⟩ =
    some ⟨if t.cell = 0 then pc + 1 + xs.length + 1 else pc + 1, t⟩ := by
  simp only [step, hsits.head, closing?_eq hxs hsits, Option.map_some]
  split <;> rfl

/-- At the end of a loop the cell decides whether to go back in or on. -/
theorem step_leave (t : Tape) : step whole ⟨pc + 1 + xs.length, t⟩ =
    some ⟨if t.cell = 0 then pc + 1 + xs.length + 1 else pc + 1, t⟩ := by
  simp only [step, hsits.tail.right.head, opening?_eq hxs hsits, Option.map_some]
  split <;> rfl

end Loop

/-- What a step does to the tape. -/
theorem tape_step {cs : List Command} {a b : Reference} (h : step cs a = some b) :
    ∃ c, b.tape = a.tape.apply c := by
  -- A bracket leaves the tape as it is.
  have hjump : ∀ {i? : Option Nat}, (i?.map fun i => { a with pc := i + 1 }) = some b →
      b.tape = a.tape := by
    intro i? hi
    obtain ⟨i, -, rfl⟩ := Option.map_eq_some_iff.1 hi
    rfl
  rw [step] at h
  split at h
  · cases h
  · refine ⟨.enter, ?_⟩
    split at h
    · exact hjump h
    · cases h; rfl
  · refine ⟨.leave, ?_⟩
    split at h
    · cases h; rfl
    · exact hjump h
  · cases h
    exact ⟨_, rfl⟩

theorem grows (cs : List Command) : Grows (step cs) (·.tape.output) := by
  intro a b h
  obtain ⟨c, hc⟩ := tape_step h
  simpa only [hc] using a.tape.output_apply c

/-- The reference machine does what the tree does. -/
theorem realises {cs : List Command} : Realises Scheme.commands cs cs.length (step cs)
    (·.tape.output) (fun pc t m => m = ⟨pc, t⟩) (fun t m => m = ⟨cs.length, t⟩) where
  leaf := by
    rintro s pc t m hs hk hc hsits rfl
    refine ⟨_, rfl, ?_⟩
    have hplain := Stmt.commands_leaf hs
    -- A leaf stands for at least one command, so there is at least one step.
    obtain ⟨c, rest, hcs, -⟩ := Stmt.commands_eq_lead_cons hk hc
    simp only [Scheme.leaf_commands, hcs] at hsits hplain ⊢
    obtain ⟨hfirst, hrest⟩ := List.forall_mem_cons.1 hplain
    have hrun := reaches_plain hrest hsits.tail (t.apply c)
    rw [Nat.add_assoc, Nat.add_comm 1] at hrun
    exact .head' (step_plain hsits.head hfirst t) hrun
  test := by
    intro n pc pos close body t m hsits hhere
    have hnested := Stmt.nested_commandsList body
    simp only [Scheme.stmt, Scheme.block_commands, Scheme.enter_commands, Scheme.exit_commands,
      List.cons_append, List.nil_append, List.length_cons, List.length_append,
      List.length_nil] at hsits hhere ⊢
    refine ⟨_, rfl, .single ?_⟩
    rcases hhere with rfl | rfl
    · rw [step_enter hnested hsits]
      congr 3
      omega
    · rw [step_leave hnested hsits]
      congr 3
      omega
  halt := by
    rintro t m rfl
    exact ⟨_, rfl, .refl⟩
  done := by
    rintro t m rfl
    simp [step]
  output_here := by
    rintro pc t m rfl
    rfl
  output_done := by
    rintro t m rfl
    rfl
  grows := grows cs

section Agree

variable {body : List Stmt} (hsound : Stmt.Sound body) (t : Tape)

include hsound

theorem follows : Follows (step (Stmt.commandsList body)) (·.tape.output)
    (fun t m => m = ⟨(Stmt.commandsList body).length, t⟩) ⟨body, t⟩ ⟨0, t⟩ := by
  rw [← Scheme.block_commands 0]
  exact realises.follows hsound (.all _) (Nat.zero_add _) rfl

/-- Running commands comes to the end exactly if running their tree does, with the
    same tape. -/
theorem haltsWith_iff (t' : Tape) :
    HaltsWith (Stmt.commandsList body) t t' ↔ Reaches Flow.step ⟨body, t⟩ ⟨[], t'⟩ := by
  constructor
  · intro h
    obtain ⟨t'', hrun, hdone⟩ := (follows hsound t).of_halts (mem_eval.2 ⟨h, realises.done rfl⟩)
    obtain rfl : t' = t'' := congrArg tape hdone
    exact hrun
  · intro h
    obtain ⟨m, hm, rfl⟩ := (follows hsound t).halts h
    exact (mem_eval.1 hm).1

end Agree

end Reference

/-- A machine in the state `m` simulates running the commands `cs` on the tape `t`.
    It halts exactly if they come to their end, and then in a state that is `Final`
    for the tape they leave; and whatever finite output the one has had at some point,
    halting or not, the other has had too. -/
structure Simulates {σ : Type*} (step : σ → Option σ) (output : σ → Bytes)
    (Final : Tape → σ → Prop) (m : σ) (cs : List Command) (t : Tape) : Prop where
  halts_iff : (∃ m', Reaches step m m' ∧ step m' = none) ↔ ∃ t', Reference.HaltsWith cs t t'
  final {m' : σ} {t' : Tape} : Reaches step m m' → step m' = none →
    Reference.HaltsWith cs t t' → Final t' m'
  output_iff (out : Bytes) : Produces step output m out ↔ Reference.Outputs cs t out

/-- A machine that follows a tree simulates its commands. -/
theorem Follows.simulates {σ : Type*} {step : σ → Option σ} {output : σ → Bytes}
    {Final : Tape → σ → Prop} {body : List Stmt} {t : Tape} {m : σ}
    (h : Follows step output Final ⟨body, t⟩ m) (hsound : Stmt.Sound body) :
    Simulates step output Final m (Stmt.commandsList body) t where
  halts_iff := by
    constructor
    · rintro ⟨m', hm'⟩
      obtain ⟨t', hrun, -⟩ := h.of_halts (mem_eval.2 hm')
      exact ⟨t', (Reference.haltsWith_iff hsound t t').2 hrun⟩
    · rintro ⟨t', ht'⟩
      obtain ⟨m', hm', -⟩ := h.halts ((Reference.haltsWith_iff hsound t t').1 ht')
      exact ⟨m', mem_eval.1 hm'⟩
  final {m' t'} hrun hnone ht' := by
    -- The machine is deterministic, so it halts in one state only.
    obtain ⟨m'', hm'', hfinal⟩ := h.halts ((Reference.haltsWith_iff hsound t t').1 ht')
    obtain rfl := Part.mem_unique (mem_eval.2 ⟨hrun, hnone⟩) hm''
    exact hfinal
  output_iff out :=
    (h.produces_iff out).symm.trans ((Reference.follows hsound t).produces_iff out)

end TapeCompiler
