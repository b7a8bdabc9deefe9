import Mathlib.Data.List.SplitBy
import Mathlib.Data.Nat.Cast.Order.Ring
import Mathlib.Order.Bounds.Defs
import TapeCompiler.Program.Statistics
import TapeCompiler.Proofs.Concatenation

/-!
# What statistics count

The statistics of a tree are collected in one walk (`Stmt.countList`). Each of the four
numbers is a number of the tree itself (`Program.statistics_eq`): its loops, the nesting
of its loops, its leaves, and the commands of all its statements.

For a parsed tree they are numbers of the source, too, which can be counted without
parsing it (`Program.statistics_of_parse`). Two of them take an argument:

  * a loop lies in as many loops as brackets are open around it, so the nesting is the
    greatest depth of a front of the source (`Stmt.peak_commandsList`);
  * neighbouring leaves are never runs of the same step, so each run of a tree is a maximal
    run of equal commands, and there are no others (`Stmt.leafCount_add_stepRuns`).
-/

namespace TapeCompiler

/-! ## The numbers of a tree -/

namespace Stmt

/-- The number of statements that are no loops, at any depth. -/
def leafCount (body : List Stmt) : Nat :=
  (nodesList body).countP (!·.isLoop)

/-- How many commands a statement stands for, without those inside it. -/
def size : Stmt → Nat
  | repeated _ _ n => n
  | loop .. => 2
  | printChar _ | readChar _ | foreign .. | absent => 1

mutual

/-- How deep loops nest in a statement. -/
def nesting : Stmt → Nat
  | .loop _ body _ => nestingList body + 1
  | _ => 0

/-- How deep loops nest in a statement list. -/
def nestingList : List Stmt → Nat
  | [] => 0
  | s :: rest => max s.nesting (nestingList rest)

end

theorem nesting_leaf {s : Stmt} (hs : s.isLoop = false) : s.nesting = 0 := by
  cases s with
  | loop => cases hs
  | _ => rfl

theorem leafCount_leaf {s : Stmt} (hs : s.isLoop = false) (rest : List Stmt) :
    leafCount (s :: rest) = leafCount rest + 1 := by
  rw [leafCount, nodesList, nodes_leaf hs, List.singleton_append,
    List.countP_cons_of_pos (by simp [hs]), leafCount]

theorem leafCount_loop (pos : Pos) (body : List Stmt) (close : Pos) (rest : List Stmt) :
    leafCount (.loop pos body close :: rest) = leafCount body + leafCount rest := by
  rw [leafCount, nodesList, nodes, List.cons_append, List.countP_cons_of_neg (by simp [isLoop]),
    List.countP_append, leafCount, leafCount]

theorem count_leaf {s : Stmt} (hs : s.isLoop = false) (depth : Nat) (st : Statistics) :
    s.count depth st = st.leaf s.size := by
  cases s with
  | loop => cases hs
  | _ => rfl

/-- What the walk over a list adds to the numbers. The list itself lies `depth` loops
    deep, which has been noted before. -/
theorem countList_eq (body : List Stmt) {depth : Nat} {st : Statistics}
    (hdepth : depth ≤ st.maxDepth) : countList depth st body =
      { loops := st.loops + loopCountList body
        maxDepth := max st.maxDepth (depth + nestingList body)
        leaves := st.leaves + leafCount body
        commands := st.commands + ((nodesList body).map size).sum } := by
  induction body using listInduction generalizing depth st with
  | nil =>
    rw [countList, nestingList, Nat.add_zero, Nat.max_eq_left hdepth]
    rfl
  | leaf s rest hs ih =>
    have hleaf : depth ≤ (st.leaf s.size).maxDepth := hdepth
    rw [countList, count_leaf hs, ih hleaf, loopCountList, loopCount_leaf hs, nestingList,
      nesting_leaf hs, leafCount_leaf hs, nodesList, nodes_leaf hs, Statistics.leaf]
    simp [Nat.add_assoc, Nat.add_comm 1]
  | loop pos body close rest ihbody ih =>
    have hinside : depth + 1 ≤ (st.loop.reach (depth + 1)).maxDepth := Nat.le_max_right ..
    have hbehind : depth ≤ max (max st.maxDepth (depth + 1)) (depth + 1 + nestingList body) := by
      omega
    rw [countList, count, ihbody hinside, ih hbehind, loopCountList, loopCount, nestingList, nesting,
      leafCount_loop, nodesList, nodes, Statistics.reach, Statistics.loop]
    simp only [List.cons_append, List.map_cons, List.map_append, List.sum_cons, List.sum_append, size,
      Statistics.mk.injEq]
    omega

/-- The sizes of known statements add up to the number of their commands. -/
theorem sum_size {body : List Stmt} (hknown : Everywhere (·.isKnown) body) :
    ((nodesList body).map size).sum = (commandsList body).length := by
  induction body using listInduction with
  | nil => rfl
  | leaf s rest hs ih =>
    have hsize : s.size = s.commands.length := by
      cases s with
      | repeated => simp [size, commands]
      | printChar | readChar => rfl
      | loop => cases hs
      | foreign | absent => cases hknown.head
    rw [nodesList, nodes_leaf hs, List.singleton_append, List.map_cons, List.sum_cons,
      ih hknown.tail, commandsList, List.length_append, hsize]
  | loop pos body close rest ihbody ih =>
    obtain ⟨-, hbody, hrest⟩ := (everywhere_loop ..).1 hknown
    simp only [nodesList, nodes, List.cons_append, List.map_cons, List.map_append, List.sum_cons,
      List.sum_append, ihbody hbody, ih hrest, commandsList, commands, List.length_cons,
      List.length_append, List.length_nil, size]
    omega

end Stmt

/-- A number of commands that fits a signed 64-bit word is reported as it is. -/
theorem Statistics.commandWord_eq {st : Statistics} (h : st.commands < 0x8000000000000000) :
    st.commandWord = st.commands := by
  have hlow : -((0x10000000000000000 : Nat) / 2 : Int) ≤ st.commands := by omega
  have hhigh : (st.commands : Int) < ((0x10000000000000000 : Nat) + 1 : Int) / 2 := by omega
  exact Int.bmod_eq_of_le hlow hhigh

namespace Program

theorem statistics_eq (p : Program) : p.statistics =
    { loops := Stmt.loopCountList p.body
      maxDepth := Stmt.nestingList p.body
      leaves := Stmt.leafCount p.body
      commands := ((Stmt.nodesList p.body).map Stmt.size).sum } := by
  rw [statistics, Stmt.countList_eq p.body (Nat.le_refl 0)]
  simp

theorem statistics_commands {p : Program} (hknown : Stmt.Everywhere (·.isKnown) p.body) :
    p.statistics.commands = (Stmt.commandsList p.body).length := by
  rw [statistics_eq, Stmt.sum_size hknown]

end Program

/-! ## The numbers of a source -/

namespace Bytes

/-- Whether neighbouring copies of the byte are merged: `>`, `<`, `+` and `-`. -/
def isStep (b : UInt8) : Bool :=
  b = 0x3E || b = 0x3C || b = 0x2B || b = 0x2D

/-- How many of the maximal runs of equal bytes consist of `>`, `<`, `+` or `-`. -/
def stepRuns (bytes : Bytes) : Nat :=
  (bytes.splitBy (· == ·)).countP fun run => run.head?.any isStep

variable {b : UInt8} {bytes : Bytes}

/-- A run that goes no further is one of the maximal runs. -/
theorem stepRuns_replicate (h : bytes.head? ≠ some b) {k : Nat} (hk : 1 ≤ k) :
    stepRuns (List.replicate k b ++ bytes) = stepRuns bytes + if isStep b then 1 else 0 := by
  have hrun : (List.replicate k b).splitBy (· == ·) = [List.replicate k b] := by
    refine List.splitBy_of_isChain ?_ (List.isChain_replicate_of_rel k (beq_self_eq_true b))
    rw [ne_eq, List.replicate_eq_nil_iff]
    exact Nat.ne_of_gt hk
  have hsplit : (List.replicate k b ++ bytes).splitBy (· == ·) =
      List.replicate k b :: bytes.splitBy (· == ·) := by
    rw [List.splitBy_append, hrun, List.singleton_append]
    intro x hx y hy
    obtain rfl : x = b := List.eq_of_mem_replicate (List.mem_of_getLast? hx)
    rw [beq_eq_false_iff_ne]
    rintro rfl
    exact h hy
  have hhead : (List.replicate k b).head?.any isStep = isStep b := by
    obtain ⟨k, rfl⟩ := Nat.exists_eq_add_of_le' hk
    rfl
  rw [stepRuns, hsplit, List.countP_cons, hhead]
  rfl

/-- Every text starts with some number of copies of a byte. -/
theorem exists_eq_replicate_append (b : UInt8) (bytes : Bytes) :
    ∃ k rest, bytes = List.replicate k b ++ rest ∧ rest.head? ≠ some b := by
  induction bytes with
  | nil => exact ⟨0, [], rfl, by simp⟩
  | cons c bytes ih =>
    by_cases hc : c = b
    · obtain ⟨k, rest, rfl, hrest⟩ := ih
      exact ⟨k + 1, rest, by rw [hc]; rfl, hrest⟩
    · exact ⟨0, c :: bytes, rfl, by simpa using hc⟩

/-- Bytes that are not merged make no difference. -/
theorem stepRuns_cons (hb : isStep b = false) (bytes : Bytes) :
    stepRuns (b :: bytes) = stepRuns bytes := by
  -- The byte may stand before its like, and then it belongs to their run.
  obtain ⟨k, rest, rfl, hrest⟩ := exists_eq_replicate_append b bytes
  have hall : ∀ k, stepRuns (List.replicate k b ++ rest) = stepRuns rest := by
    intro k
    rcases Nat.eq_zero_or_pos k with rfl | hk
    · rfl
    · rw [stepRuns_replicate hrest hk, hb]
      rfl
  rw [hall k, ← hall (k + 1), List.replicate_succ, List.cons_append]

end Bytes

namespace Stmt

theorem peak_leaf {s : Stmt} (hs : s.isLoop = false) :
    Brackets.Peak Bytes.weight (s.commands.map Command.toByte) 0 := by
  refine Brackets.peak_plain fun b hb => ?_
  obtain ⟨c, hc, rfl⟩ := List.mem_map.1 hb
  cases s with
  | repeated step pos n =>
    obtain rfl := List.eq_of_mem_replicate hc
    cases step <;> rfl
  | printChar | readChar =>
    obtain rfl := List.mem_singleton.1 hc
    rfl
  | loop => cases hs
  | foreign | absent => cases hc

/-- The nesting of a tree is the greatest depth of its brackets. -/
theorem peak_commandsList (body : List Stmt) :
    Brackets.Peak Bytes.weight ((commandsList body).map Command.toByte) (nestingList body) := by
  induction body using listInduction with
  | nil => exact Brackets.peak_nil
  | leaf s rest hs ih =>
    have hlevel := (balanced_commandsList [s]).level
    rw [commandsList, commandsList, List.append_nil] at hlevel
    rw [commandsList, List.map_append, nestingList, nesting_leaf hs, Nat.cast_max]
    exact (peak_leaf hs).append hlevel ih
  | loop pos body close rest ihbody ih =>
    have hlevel := (balanced_commandsList [.loop pos body close]).level
    rw [commandsList, commandsList, List.append_nil] at hlevel
    have hloop := ihbody.wrap (balanced_commandsList body).level (a := Command.enter.toByte)
      (b := Command.leave.toByte) rfl rfl
    rw [commandsList, List.map_append, nestingList, nesting, Nat.cast_max]
    refine Brackets.Peak.append ?_ hlevel ih
    simpa [commands] using hloop

/-- After a run the bytes go on with something else. -/
theorem head?_bytes_after_run {step : Step} {pos : Pos} {n : Nat} {rest : List Stmt}
    {after : List Command} (hs : Sound rest) (hm : Apart (.repeated step pos n :: rest))
    (ha : Closes after) :
    ((commandsList rest ++ after).map Command.toByte).head? ≠ some step.command.toByte := by
  rw [List.head?_map]
  intro h
  obtain ⟨c, hc, hbyte⟩ := Option.map_eq_some_iff.1 h
  exact head?_after_run hs hm ha (Command.toByte_injective hbyte ▸ hc)

/-- A leaf is one command for input or output, or one run. -/
theorem stepRuns_leaf {s : Stmt} (hs : s.isLoop = false) (hk : s.isKnown) (hc : s.isCounted)
    {bytes : Bytes} (hnext : ∀ step pos n, s = .repeated step pos n →
      bytes.head? ≠ some step.command.toByte) :
    s.commands.count .put + s.commands.count .get +
      Bytes.stepRuns (s.commands.map Command.toByte ++ bytes) = Bytes.stepRuns bytes + 1 := by
  cases s with
  | repeated step pos n =>
    have hio : ∀ c, c = .put ∨ c = .get → (List.replicate n step.command).count c = 0 := by
      intro c hc
      refine List.count_eq_zero.2 fun hmem => ?_
      obtain rfl := List.eq_of_mem_replicate hmem
      cases step <;> simp [Step.command] at hc
    have hstep : Bytes.isStep step.command.toByte := by cases step <;> rfl
    rw [commands, hio _ (.inl rfl), hio _ (.inr rfl), List.map_replicate,
      Bytes.stepRuns_replicate (hnext step pos n rfl) (of_decide_eq_true hc), if_pos hstep]
    omega
  | printChar =>
    have hbyte : Bytes.stepRuns (Command.put.toByte :: bytes) = Bytes.stepRuns bytes :=
      Bytes.stepRuns_cons rfl bytes
    rw [Nat.add_comm, ← hbyte]
    rfl
  | readChar =>
    have hbyte : Bytes.stepRuns (Command.get.toByte :: bytes) = Bytes.stepRuns bytes :=
      Bytes.stepRuns_cons rfl bytes
    rw [Nat.add_comm, ← hbyte]
    rfl
  | loop => cases hs
  | foreign | absent => cases hk

/-- The leaves of a canonical tree are its commands for input and output and the runs in its
    commands. The commands that follow the tree must not go on with its last run. -/
theorem leafCount_add_stepRuns {body : List Stmt} (hbody : Canonical body) {after : List Command}
    (hafter : Closes after) : leafCount body + Bytes.stepRuns (after.map Command.toByte) =
      (commandsList body).count .put + (commandsList body).count .get +
        Bytes.stepRuns ((commandsList body ++ after).map Command.toByte) := by
  induction body using listInduction generalizing after with
  | nil => rfl
  | leaf s rest hs ih =>
    have hrest : Canonical rest := ⟨hbody.1.tail, hbody.2.tail⟩
    have hbehind := ih hrest hafter
    have hnext : ∀ step pos n, s = .repeated step pos n →
        ((commandsList rest ++ after).map Command.toByte).head? ≠ some step.command.toByte := by
      rintro step pos n rfl
      exact head?_bytes_after_run hrest.1 hbody.2.1 hafter
    have hleaf := stepRuns_leaf hs hbody.1.head.1 hbody.1.head.2 hnext
    rw [leafCount_leaf hs, commandsList, List.count_append, List.count_append, List.append_assoc,
      List.map_append]
    omega
  | loop pos body close rest ihbody ih =>
    obtain ⟨-, hinner, hrest⟩ := (everywhere_loop ..).1 hbody.1
    -- The bracket closes the body, and no bracket belongs to a run.
    have hclose : Closes (.leave :: (commandsList rest ++ after)) := by simp [Closes]
    have hinside := ihbody ⟨hinner, hbody.2.body⟩ hclose
    have hbehind := ih ⟨hrest, hbody.2.tail⟩ hafter
    have hcommands : commandsList (.loop pos body close :: rest) ++ after =
        .enter :: (commandsList body ++ .leave :: (commandsList rest ++ after)) := by
      simp [commandsList, commands]
    have hcount : ∀ c : Command, c = .put ∨ c = .get →
        (commandsList (.loop pos body close :: rest)).count c =
          (commandsList body).count c + (commandsList rest).count c := by
      rintro c (rfl | rfl) <;> simp [commandsList, commands]
    rw [List.map_cons, Bytes.stepRuns_cons rfl] at hinside
    rw [leafCount_loop, hcommands, List.map_cons, Bytes.stepRuns_cons rfl, hcount _ (.inl rfl),
      hcount _ (.inr rfl)]
    omega

end Stmt

/-- The nesting of a parsed tree is the greatest depth of its source. -/
theorem Program.peak_of_parse {filename : String} {src : Bytes} {p : Program}
    (h : Program.parse (.ofBytes filename src) = .ok p) :
    Brackets.Peak Bytes.weight src (Stmt.nestingList p.body) := by
  refine .of_filter (p := fun b => (Command.ofByte? b).isSome) ?_ ?_
  · intro b hb
    exact Bytes.weight_of_ofByte?_eq_none (by simpa using hb)
  · have hnesting := Stmt.peak_commandsList p.body
    rwa [(canonical_of_parse h).2, Bytes.map_toByte_commands] at hnesting

/-- The statistics of a source measure its text. The commands are its command bytes and
    the loops its opening brackets. The depth is the greatest number of brackets that a
    prefix opens and does not close, and the leaves are the bytes for input and output and
    the maximal runs of equal bytes among `>`, `<`, `+` and `-`, comments left out. The
    commands of a source whose length is a signed 64-bit word are reported as they are. -/
theorem Program.statistics_of_parse {filename : String} {src : Bytes} {p : Program}
    (h : Program.parse (.ofBytes filename src) = .ok p) :
    p.statistics.commands = src.commandBytes.length ∧
    p.statistics.loops = src.count 0x5B ∧
    IsGreatest {d : Int | ∃ front, front <+: src ∧ d = front.count 0x5B - front.count 0x5D}
      p.statistics.maxDepth ∧
    p.statistics.leaves = src.count 0x2E + src.count 0x2C + src.commandBytes.stepRuns ∧
    (src.length < 0x8000000000000000 → p.statistics.commandWord = src.commandBytes.length) := by
  obtain ⟨hcanonical, hcommands⟩ := canonical_of_parse h
  have hbytes : (Stmt.commandsList p.body).map Command.toByte = src.commandBytes := by
    rw [hcommands, Bytes.map_toByte_commands]
  have hlength : p.statistics.commands = src.commandBytes.length := by
    rw [statistics_commands (known_of_parse h), ← hbytes, List.length_map]
  refine ⟨hlength, ?_, ?_, ?_, fun hsrc => ?_⟩
  · rw [statistics_eq, ← Stmt.count_enter_commandsList, hcommands, Bytes.count_commands]
    rfl
  · have hpeak := peak_of_parse h
    rw [statistics_eq]
    constructor
    · obtain ⟨n, hn⟩ := hpeak.attained
      exact ⟨src.take n, List.take_prefix n src, by rw [← hn, Bytes.depth_eq]⟩
    · rintro d ⟨front, hfront, rfl⟩
      rw [← Bytes.depth_eq, List.prefix_iff_eq_take.1 hfront]
      exact hpeak.le _
  · have hend : Stmt.Closes [] := by simp [Stmt.Closes]
    have hleaves := Stmt.leafCount_add_stepRuns hcanonical hend
    rw [List.append_nil, hbytes, hcommands, Bytes.count_commands, Bytes.count_commands] at hleaves
    rw [statistics_eq]
    exact hleaves
  · have hle : src.commandBytes.length ≤ src.length := List.length_filter_le ..
    rw [← hlength] at hle ⊢
    exact Statistics.commandWord_eq (Nat.lt_of_le_of_lt hle hsrc)

/-- The source `+x+[->[[.,]]<<]..`: a comment does not end a run, and two equal commands for
    output are two leaves. -/
theorem Program.statistics_of_parse_nested :
    let src : Bytes := [0x2B, 0x78, 0x2B, 0x5B, 0x2D, 0x3E, 0x5B, 0x5B, 0x2E, 0x2C, 0x5D, 0x5D, 0x3C,
      0x3C, 0x5D, 0x2E, 0x2E]
    ∃ p, Program.parse (.ofBytes "n.bf" src) = .ok p ∧ p.statistics.commands = 16 ∧
      p.statistics.loops = 3 ∧ p.statistics.leaves = 4 + 4 ∧ p.statistics.commandWord = 16 ∧
      IsGreatest {d : Int | ∃ front, front <+: src ∧ d = front.count 0x5B - front.count 0x5D} 3 := by
  intro src
  have hok : (Program.parse (.ofBytes "n.bf" src)).toOption.map (·.statistics.maxDepth) = some 3 := by
    decide +kernel
  obtain ⟨p, hparse, hdepth⟩ : ∃ p, Program.parse (.ofBytes "n.bf" src) = .ok p ∧
      p.statistics.maxDepth = 3 := by
    cases hparse : Program.parse (.ofBytes "n.bf" src) with
    | ok p =>
      rw [hparse] at hok
      exact ⟨p, rfl, Option.some.inj hok⟩
    | error e =>
      rw [hparse] at hok
      cases hok
  obtain ⟨hcommands, hloops, hgreatest, hleaves, hword⟩ := statistics_of_parse hparse
  have hlength : src.commandBytes.length = 16 := by decide
  have hopen : src.count 0x5B = 3 := by decide
  have hio : src.count 0x2E + src.count 0x2C = 4 := by decide
  have hruns : src.commandBytes.stepRuns = 4 := by decide
  rw [hlength] at hcommands hword
  rw [hio, hruns] at hleaves
  rw [hdepth] at hgreatest
  exact ⟨p, hparse, hcommands, hloops.trans hopen, hleaves, hword (by decide), hgreatest⟩

end TapeCompiler
