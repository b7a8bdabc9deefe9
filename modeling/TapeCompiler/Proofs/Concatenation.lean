import Mathlib.Data.List.Count
import TapeCompiler.Proofs.Completion
import TapeCompiler.Proofs.Lowering
import TapeCompiler.Target.C

/-!
# Concatenation

Where two sources meet, the last run of the first and the first run of the second can
become one leaf, so the tree of a concatenation is not made of the trees of its parts.
Without optimisation that cannot be seen in the text: lowering repeats the chunk of a
single step, and what comes out is one chunk for each command, as if no run had ever
been merged.

  * `Target.spell`: the chunks of commands, one by one, with the labels that a counter
    hands out.
  * `Target.spell_commandsList`: a tree is lowered to its commands spelled out, whatever
    follows it.
  * `Program.bodyText_append`: the text of a concatenation is the text of the first source
    followed by that of the second, whose labels go on where the first one has stopped.
-/

namespace TapeCompiler

/-! ## Counting loops -/

namespace Stmt

theorem count_enter_leaf {s : Stmt} (hs : s.isLoop = false) : s.commands.count .enter = 0 := by
  refine List.count_eq_zero.2 fun hmem => ?_
  cases s with
  | repeated step pos n =>
    have hstep : Command.enter = step.command := List.eq_of_mem_replicate hmem
    cases step <;> cases hstep
  | printChar | readChar => cases List.mem_singleton.1 hmem
  | loop => cases hs
  | foreign | absent => cases hmem

/-- A tree has as many loops as its commands have opening brackets. -/
theorem count_enter_commandsList (body : List Stmt) :
    (commandsList body).count .enter = loopCountList body := by
  induction body using listInduction with
  | nil => rfl
  | leaf s rest hs ih =>
    rw [commandsList, List.count_append, count_enter_leaf hs, ih, loopCountList, loopCount_leaf hs]
  | loop pos body close rest ihbody ih =>
    have hleave : [Command.leave].count .enter = 0 := rfl
    rw [commandsList, commands, List.count_append, List.count_cons_self, List.count_append, hleave,
      ihbody, ih, loopCountList, loopCount, Nat.add_zero]

end Stmt

/-- How often a command is given is how often its byte stands in the text. -/
theorem Bytes.count_commands (src : Bytes) (c : Command) :
    src.commands.count c = src.count c.toByte := by
  have hc : (Command.ofByte? c.toByte).isSome := by rw [Command.ofByte?_toByte]; rfl
  rw [← List.count_map_of_injective _ _ Command.toByte_injective, map_toByte_commands]
  exact List.count_filter hc

/-! ## Commands spelled out -/

namespace Target

/-- The chunks of commands one by one. So many labels have been issued before, and
    `opened` holds the numbers of the loops that are open, the innermost first. -/
def spell (t : Target) (issued : Nat) (opened : List Nat) : List Command → List Chunk
  | [] => []
  | .right :: rest => t.step .moveRight 1 :: t.spell issued opened rest
  | .left :: rest => t.step .moveLeft 1 :: t.spell issued opened rest
  | .add :: rest => t.step .increment 1 :: t.spell issued opened rest
  | .sub :: rest => t.step .decrement 1 :: t.spell issued opened rest
  | .put :: rest => t.printChar :: t.spell issued opened rest
  | .get :: rest => t.readChar :: t.spell issued opened rest
  | .enter :: rest => t.loopEnter (.numbered issued) :: t.spell (issued + 2) (issued :: opened) rest
  | .leave :: rest => t.loopExit (.numbered (opened.headD 0)) :: t.spell issued opened.tail rest

variable (t : Target)

theorem spell_step (step : Step) (issued : Nat) (opened : List Nat) (rest : List Command) :
    t.spell issued opened (step.command :: rest) = t.step step 1 :: t.spell issued opened rest := by
  cases step <;> rfl

/-- A run comes out as if it had never been merged. -/
theorem spell_replicate (step : Step) (count issued : Nat) (opened : List Nat)
    (rest : List Command) :
    t.spell issued opened (List.replicate count step.command ++ rest) =
      List.replicate count (t.step step 1) ++ t.spell issued opened rest := by
  induction count with
  | zero => rfl
  | succ count ih =>
    rw [List.replicate_succ, List.cons_append, spell_step, ih, List.replicate_succ,
      List.cons_append]

theorem spell_leaf {s : Stmt} (hs : s.isLoop = false) (hk : s.isKnown) (issued : Nat)
    (opened : List Nat) (rest : List Command) :
    t.spell issued opened (s.commands ++ rest) =
      (Scheme.chunks ⟨t, false⟩).leaf s ++ t.spell issued opened rest := by
  cases s with
  | repeated step pos count => exact t.spell_replicate step count issued opened rest
  | printChar | readChar => rfl
  | loop => cases hs
  | foreign | absent => cases hk

/-- A tree is lowered to its commands spelled out. What follows goes on after the labels
    of the tree, with the same loops open as before it. -/
theorem spell_commandsList {body : List Stmt} (hknown : Stmt.Everywhere (·.isKnown) body)
    (issued : Nat) (opened : List Nat) (rest : List Command) :
    t.spell issued opened (Stmt.commandsList body ++ rest) =
      (Scheme.chunks ⟨t, false⟩).block issued body ++
        t.spell (issued + 2 * Stmt.loopCountList body) opened rest := by
  induction body using Stmt.listInduction generalizing issued opened rest with
  | nil => rfl
  | leaf s tail hs ih =>
    rw [Stmt.commandsList, List.append_assoc, t.spell_leaf hs hknown.head, ih hknown.tail,
      Scheme.block_leaf hs, Stmt.loopCountList, Stmt.loopCount_leaf hs, Nat.zero_add,
      List.append_assoc]
  | loop pos body close tail ihbody ih =>
    obtain ⟨-, hbody, htail⟩ := (Stmt.everywhere_loop ..).1 hknown
    -- The closing bracket takes back the number that the opening one has put on the stack.
    have hissued : issued + 2 + 2 * Stmt.loopCountList body + 2 * Stmt.loopCountList tail =
        issued + 2 * Stmt.loopCountList (.loop pos body close :: tail) := by
      rw [Stmt.loopCountList, Stmt.loopCount]
      omega
    rw [Stmt.commandsList, Stmt.commands, List.cons_append, List.cons_append, List.append_assoc,
      List.append_assoc, spell, ihbody hbody, List.singleton_append, spell, List.tail_cons,
      ih htail, Scheme.block_loop, hissued]
    simp

/-- The chunks of a tree depend on its commands only. -/
theorem block_eq_spell {body : List Stmt} (hknown : Stmt.Everywhere (·.isKnown) body)
    (issued : Nat) :
    (Scheme.chunks ⟨t, false⟩).block issued body = t.spell issued [] (Stmt.commandsList body) := by
  have h := t.spell_commandsList hknown issued [] []
  rw [List.append_nil] at h
  rw [h]
  exact (List.append_nil _).symm

end Target

/-! ## Sources put one after the other -/

namespace Program

/-- The text of a program without optimisation, after `n` labels, without its first chunk,
    the prologue, and its last, the epilogue. -/
def bodyText (p : Program) (t : Target) (n : Nat) : Except LoweringFault String :=
  (p.lower ⟨t, false⟩ (.counter n)).map fun (chunks, _) => textOf chunks.tail.dropLast

variable {p : Program}

theorem bodyText_eq (hknown : Stmt.Everywhere (·.isKnown) p.body) (t : Target) (n : Nat) :
    p.bodyText t n = .ok (textOf ((Scheme.chunks ⟨t, false⟩).block n p.body)) := by
  rw [bodyText, lower_counter hknown, chunksAfter]
  simp only [Except.map, List.cons_append, List.tail_cons, List.dropLast_concat]

/-- The text of a program is its body between the prologue and the epilogue. -/
theorem generate_eq_bodyText (hknown : Stmt.Everywhere (·.isKnown) p.body) {t : Target} {n : Nat}
    {text : String} (h : p.bodyText t n = .ok text) :
    p.generate ⟨t, false⟩ (.counter n) =
      .ok (textOf [t.prologue] ++ text ++ textOf [t.epilogue]) := by
  rw [bodyText_eq hknown] at h
  rw [generate_counter hknown, chunksAfter, ← List.singleton_append, textOf_append, textOf_append,
    Except.ok.inj h]

variable {name₁ name₂ : String} {s₁ s₂ : Bytes} {p₁ p₂ : Program}

/-- Two programs put one after the other are a program. Its text without optimisation,
    prologue and epilogue aside, is that of the first followed by that of the second after
    two more labels for each opening bracket of the first. -/
theorem bodyText_append (h₁ : Program.parse (.ofBytes name₁ s₁) = .ok p₁)
    (h₂ : Program.parse (.ofBytes name₂ s₂) = .ok p₂) (name : String) (t : Target) (n : Nat) :
    ∃ p text₁ text₂, Program.parse (.ofBytes name (s₁ ++ s₂)) = .ok p ∧
      p₁.bodyText t n = .ok text₁ ∧ p₂.bodyText t (n + 2 * s₁.count 0x5B) = .ok text₂ ∧
      p.bodyText t n = .ok (text₁ ++ text₂) ∧
      p.generate ⟨t, false⟩ (.counter n) =
        .ok (textOf [t.prologue] ++ (text₁ ++ text₂) ++ textOf [t.epilogue]) := by
  have hbalanced : (s₁ ++ s₂).IsBalanced :=
    Bytes.isBalanced_iff.2 ((Bytes.isBalanced_iff.1 (isBalanced_of_parse h₁)).append
      (Bytes.isBalanced_iff.1 (isBalanced_of_parse h₂)))
  obtain ⟨p, h⟩ := exists_parse hbalanced name
  have hknown₁ := known_of_parse h₁
  have hknown₂ := known_of_parse h₂
  have hknown := known_of_parse h
  have hcommands₁ := (canonical_of_parse h₁).2
  have hcount : Stmt.loopCountList p₁.body = s₁.count 0x5B := by
    rw [← Stmt.count_enter_commandsList, hcommands₁, Bytes.count_commands]
    rfl
  -- The trees do not fit together, but their commands do.
  have hblock : (Scheme.chunks ⟨t, false⟩).block n p.body =
      (Scheme.chunks ⟨t, false⟩).block n p₁.body ++
        (Scheme.chunks ⟨t, false⟩).block (n + 2 * s₁.count 0x5B) p₂.body := by
    rw [t.block_eq_spell hknown, (canonical_of_parse h).2, Bytes.commands_append, ← hcommands₁,
      ← (canonical_of_parse h₂).2, t.spell_commandsList hknown₁, hcount, ← t.block_eq_spell hknown₂]
  have htext : p.bodyText t n = .ok (textOf ((Scheme.chunks ⟨t, false⟩).block n p₁.body) ++
      textOf ((Scheme.chunks ⟨t, false⟩).block (n + 2 * s₁.count 0x5B) p₂.body)) := by
    rw [bodyText_eq hknown, hblock, textOf_append]
  exact ⟨p, _, _, h, bodyText_eq hknown₁ t n, bodyText_eq hknown₂ t _, htext,
    generate_eq_bodyText hknown htext⟩

/-- The sources `[-]+` and `+[>]` after four labels. The two additions become one leaf of the
    concatenation, so its tree is shorter than the two trees together; the second source goes
    on after six labels. -/
theorem bodyText_append_seam :
    ∃ p₁ p₂ p text₁ text₂,
      Program.parse (.ofBytes "a.bf" [0x5B, 0x2D, 0x5D, 0x2B]) = .ok p₁ ∧
      Program.parse (.ofBytes "b.bf" [0x2B, 0x5B, 0x3E, 0x5D]) = .ok p₂ ∧
      Program.parse (.ofBytes "c.bf" [0x5B, 0x2D, 0x5D, 0x2B, 0x2B, 0x5B, 0x3E, 0x5D]) = .ok p ∧
      p₁.body.length = 2 ∧ p₂.body.length = 2 ∧ p.body.length = 3 ∧
      p₁.bodyText C.target 4 = .ok text₁ ∧ p₂.bodyText C.target 6 = .ok text₂ ∧
      p.bodyText C.target 4 = .ok (text₁ ++ text₂) := by
  obtain ⟨p₁, h₁, hlength₁⟩ : ∃ p₁, Program.parse (.ofBytes "a.bf" [0x5B, 0x2D, 0x5D, 0x2B]) =
      .ok p₁ ∧ p₁.body.length = 2 := ⟨_, rfl, rfl⟩
  obtain ⟨p₂, h₂, hlength₂⟩ : ∃ p₂, Program.parse (.ofBytes "b.bf" [0x2B, 0x5B, 0x3E, 0x5D]) =
      .ok p₂ ∧ p₂.body.length = 2 := ⟨_, rfl, rfl⟩
  obtain ⟨p, text₁, text₂, h, htext₁, htext₂, htext, -⟩ := bodyText_append h₁ h₂ "c.bf" C.target 4
  have hlength : (Program.parse (.ofBytes "c.bf"
      [0x5B, 0x2D, 0x5D, 0x2B, 0x2B, 0x5B, 0x3E, 0x5D])).map (·.body.length) = .ok 3 := rfl
  refine ⟨p₁, p₂, p, text₁, text₂, h₁, h₂, h, hlength₁, hlength₂, ?_, htext₁, htext₂, htext⟩
  rw [show Program.parse (.ofBytes "c.bf" [0x5B, 0x2D, 0x5D, 0x2B, 0x2B, 0x5B, 0x3E, 0x5D]) = .ok p
    from h] at hlength
  exact Except.ok.inj hlength

end Program

end TapeCompiler
