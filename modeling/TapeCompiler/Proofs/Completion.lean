import TapeCompiler.Proofs.Parsing

/-!
# Completing a source

A text that is no program either leaves loops open (`Bytes.LeavesOpen`), or has a
closing bracket without a partner (`Bytes.FirstOverclosed`). What can follow the text
makes the difference:

  * a text that leaves loops open is completed by closing them
    (`Bytes.LeavesOpen.isBalanced_append`);
  * a closing bracket without a partner stays what it is, whatever follows it
    (`Bytes.FirstOverclosed.append`).

The parser tells the two apart (`Program.parse_class`), so an error that it calls
incomplete is one that more text can mend, and any other error is final
(`Program.parse_error_append`).
-/

namespace TapeCompiler

/-! ## Closing what is open -/

namespace Brackets

variable {α : Type*} {weight : α → Int} {l : List α} {a : α}

theorem depth_replicate (ha : weight a = -1) (n : Nat) :
    depth weight (List.replicate n a) = -(n : Int) := by
  simp [depth, ha]

/-- Closing brackets, as many as are open, balance a list. -/
theorem NeverBelow.balanced_append (h : NeverBelow weight l) (ha : weight a = -1) :
    Balanced weight (l ++ List.replicate (depth weight l).toNat a) where
  neverBelow := by
    refine neverBelow_append h fun n => ?_
    have hdepth := h.depth_nonneg
    rw [List.take_replicate, depth_replicate ha]
    omega
  level := by
    have hdepth := h.depth_nonneg
    rw [depth_append, depth_replicate ha]
    omega

end Brackets

namespace Bytes

variable {src : Bytes} {i j : Nat}

theorem isBalanced_iff : src.IsBalanced ↔ Brackets.Balanced weight src := by
  constructor
  · rintro ⟨hnever, hcount⟩
    refine ⟨neverBelow_iff.2 hnever, ?_⟩
    rw [depth_eq]
    omega
  · rintro ⟨hnever, hlevel⟩
    refine ⟨neverBelow_iff.1 hnever, ?_⟩
    rw [depth_eq] at hlevel
    omega

/-- Every closing bracket of the text has a partner, and some opening bracket has none. -/
def LeavesOpen (src : Bytes) : Prop :=
  src.NeverOverclosed ∧ src.count 0x5D < src.count 0x5B

theorem LeavesOpen.isBalanced_append (h : src.LeavesOpen) :
    ∃ closing : Bytes, (src ++ closing).IsBalanced :=
  ⟨_, isBalanced_iff.2 ((neverBelow_iff.2 h.1).balanced_append (a := 0x5D) rfl)⟩

/-- A text that leaves a loop open has an opening bracket. -/
theorem LeavesOpen.mem (h : src.LeavesOpen) : 0x5B ∈ src :=
  List.count_pos_iff.1 (Nat.zero_lt_of_lt h.2)

namespace FirstOverclosed

theorem lt_length (h : src.FirstOverclosed i) : i < src.length :=
  (List.getElem?_eq_some_iff.1 h.1).1

theorem not_neverOverclosed (h : src.FirstOverclosed i) : ¬src.NeverOverclosed :=
  fun hnever => absurd (hnever (i + 1)) (Nat.not_le.2 h.2.2)

/-- There is no second first one. -/
theorem unique (hi : src.FirstOverclosed i) (hj : src.FirstOverclosed j) : i = j := by
  -- The text before one of them does not reach beyond the other.
  have hle : ∀ {i j}, src.FirstOverclosed i → src.FirstOverclosed j → j ≤ i := by
    intro i j hi hj
    by_contra hlt
    have hnever := hj.2.1 (i + 1)
    rw [List.take_take, Nat.min_eq_left (by omega)] at hnever
    exact absurd hnever (Nat.not_le.2 hi.2.2)
  exact Nat.le_antisymm (hle hj hi) (hle hi hj)

/-- It stays the first one, whatever follows. -/
theorem append (h : src.FirstOverclosed i) (more : Bytes) : (src ++ more).FirstOverclosed i := by
  have hi := h.lt_length
  obtain ⟨hbyte, hnever, hcount⟩ := h
  refine ⟨?_, ?_, ?_⟩
  · rwa [List.getElem?_append_left hi]
  · rwa [List.take_append_of_le_length (Nat.le_of_lt hi)]
  · rwa [List.take_append_of_le_length hi]

end FirstOverclosed

end Bytes

/-! ## What the parser makes of it -/

namespace Program

/-- A source is a program, has a closing bracket without a partner, or leaves loops open,
    and the parser says which. -/
theorem parse_class (filename : String) (src : Bytes) :
    (src.IsBalanced ∧ ∃ program, Program.parse (.ofBytes filename src) = .ok program) ∨
    (∃ i, src.FirstOverclosed i ∧ Program.parse (.ofBytes filename src) =
      .error (.malformed (.unexpectedClose (.after filename (src.take i))))) ∨
    (src.LeavesOpen ∧ ∃ pos, Program.parse (.ofBytes filename src) =
      .error (.malformed (.unterminatedLoop pos))) := by
  -- The brackets are those of what the parser has on its stack when it ends.
  rcases Parser.parse_cases filename src with ⟨f, hf, hl, -, pos, hok⟩ |
    ⟨f, l, loops, hf, hl, hfail⟩ | ⟨mid, rest, f, hsrc, hf, hl, hfail⟩
  · exact .inl ⟨hf.isBalanced hl, _, hok⟩
  · obtain ⟨hnever, hcount, -⟩ := hf.innermost hl
    have hle := hnever src.length
    rw [List.take_length] at hle
    exact .inr (.inr ⟨⟨hnever, by omega⟩, l.pos, hfail.1⟩)
  · have hmid : src.take mid.length = mid := by rw [hsrc, List.take_left]
    refine .inr (.inl ⟨mid.length, ?_, by rw [hmid]; exact hfail.1⟩)
    rw [hsrc]
    exact Bytes.firstOverclosed_append (hf.isBalanced hl) rest

variable {filename : String} {src : Bytes} {e : ParseError}

theorem isBalanced_of_parse {program : Program}
    (h : Program.parse (.ofBytes filename src) = .ok program) : src.IsBalanced := by
  rcases parse_class filename src with ⟨hbalanced, -⟩ | ⟨i, -, herror⟩ | ⟨-, pos, herror⟩
  · exact hbalanced
  · cases h.symm.trans herror
  · cases h.symm.trans herror

theorem parse_eq_unexpectedClose {i : Nat} (h : src.FirstOverclosed i) (filename : String) :
    Program.parse (.ofBytes filename src) =
      .error (.malformed (.unexpectedClose (.after filename (src.take i)))) := by
  rcases parse_class filename src with ⟨hbalanced, -⟩ | ⟨j, hj, herror⟩ | ⟨hopen, -⟩
  · exact absurd hbalanced h.not_isBalanced
  · rw [h.unique hj, herror]
  · exact absurd hopen.1 h.not_neverOverclosed

/-- A text that is no program is malformed; nothing else can be wrong with it. -/
theorem exists_malformed (h : Program.parse (.ofBytes filename src) = .error e) :
    ∃ malformed, e = .malformed malformed := by
  rcases parse_class filename src with ⟨-, program, hok⟩ | ⟨i, -, herror⟩ | ⟨-, pos, herror⟩
  · cases h.symm.trans hok
  · exact ⟨_, Except.error.inj (h.symm.trans herror)⟩
  · exact ⟨_, Except.error.inj (h.symm.trans herror)⟩

/-- An error is incomplete exactly if the source leaves loops open. -/
theorem isIncomplete_iff_leavesOpen (h : Program.parse (.ofBytes filename src) = .error e) :
    e.isIncomplete ↔ src.LeavesOpen := by
  rcases parse_class filename src with ⟨-, program, hok⟩ | ⟨i, hi, herror⟩ | ⟨hopen, pos, herror⟩
  · cases h.symm.trans hok
  · cases h.symm.trans herror
    exact iff_of_false Bool.false_ne_true fun hopen => hi.not_neverOverclosed hopen.1
  · cases h.symm.trans herror
    exact iff_of_true rfl hopen

/-- An error that is not incomplete is at the first closing bracket without a partner. -/
theorem firstOverclosed_of_error (h : Program.parse (.ofBytes filename src) = .error e)
    (he : e.isIncomplete = false) : ∃ i, src.FirstOverclosed i ∧
      e = .malformed (.unexpectedClose (.after filename (src.take i))) := by
  rcases parse_class filename src with ⟨-, program, hok⟩ | ⟨i, hi, herror⟩ | ⟨-, pos, herror⟩
  · cases h.symm.trans hok
  · exact ⟨i, hi, Except.error.inj (h.symm.trans herror)⟩
  · cases h.symm.trans herror
    cases he

/-- An error is incomplete exactly if some text behind the source makes it a program.
    Otherwise the same error, at the same position and with the same wording, is what
    comes of the source whatever follows it. -/
theorem parse_error_append (h : Program.parse (.ofBytes filename src) = .error e) :
    (e.isIncomplete ↔
      ∃ more program, Program.parse (.ofBytes filename (src ++ more)) = .ok program) ∧
    (e.isIncomplete = false →
      ∀ more, Program.parse (.ofBytes filename (src ++ more)) = .error e) := by
  have hfinal : e.isIncomplete = false →
      ∀ more, Program.parse (.ofBytes filename (src ++ more)) = .error e := by
    intro he more
    obtain ⟨i, hi, rfl⟩ := firstOverclosed_of_error h he
    rw [parse_eq_unexpectedClose (hi.append more),
      List.take_append_of_le_length (Nat.le_of_lt hi.lt_length)]
  refine ⟨⟨fun he => ?_, ?_⟩, hfinal⟩
  · obtain ⟨closing, hclosing⟩ := ((isIncomplete_iff_leavesOpen h).1 he).isBalanced_append
    exact ⟨closing, exists_parse hclosing filename⟩
  · -- What can be mended is not final.
    rintro ⟨more, program, hok⟩
    by_contra he
    cases hok.symm.trans (hfinal (Bool.eq_false_iff.2 he) more)

/-- Both kinds of error, each before the first byte of a character that could go on: the
    open loop of `+[` can be closed, and the bracket of `+]` stays without a partner. -/
theorem parse_error_append_cut :
    (∃ e, Program.parse (.ofBytes "c.bf" [0x2B, 0x5B, 0xE2]) = .error e ∧ e.isIncomplete ∧
      ∃ more program,
        Program.parse (.ofBytes "c.bf" ([0x2B, 0x5B, 0xE2] ++ more)) = .ok program) ∧
    ∃ e, Program.parse (.ofBytes "c.bf" [0x2B, 0x5D, 0xE2]) = .error e ∧ e.isIncomplete = false ∧
      ∀ more, Program.parse (.ofBytes "c.bf" ([0x2B, 0x5D, 0xE2] ++ more)) = .error e := by
  constructor
  · obtain ⟨e, he, hopen⟩ : ∃ e, Program.parse (.ofBytes "c.bf" [0x2B, 0x5B, 0xE2]) = .error e ∧
        e.isIncomplete := ⟨_, rfl, rfl⟩
    exact ⟨e, he, hopen, (parse_error_append he).1.1 hopen⟩
  · obtain ⟨e, he, hfinal⟩ : ∃ e, Program.parse (.ofBytes "c.bf" [0x2B, 0x5D, 0xE2]) = .error e ∧
        e.isIncomplete = false := ⟨_, rfl, rfl⟩
    exact ⟨e, he, hfinal, (parse_error_append he).2 hfinal⟩

end Program

end TapeCompiler
