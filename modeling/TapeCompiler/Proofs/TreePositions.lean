import TapeCompiler.Proofs.Agreement
import TapeCompiler.Proofs.StreamParsing

/-!
# Positions in trees

A tree keeps the positions of some of the commands that it stands for: the first of a run, and
both brackets of a loop. `Stmt.marks` lists all its commands in order, each with the position
that is kept for it, if any. The marks of a parsed tree *cover* its source (`Mark.Covers`): they
are its commands, one by one, and every position that is kept is that of its own byte. The
parser adds one mark for each token (`Frames.Joinable.take`), so a whole parse comes to a cover
(`Frames.Joinable.run`).

All that positions say about the source can be read off the cover, which is cut where the marks
are (`Mark.Covers.append`, `Mark.Covers.cons`). The main result is `Program.pointsInto_of_parse`.
-/

namespace TapeCompiler

/-- A command of a tree, with the position that the tree keeps for it. -/
structure Mark where
  command : Command
  pos? : Option Pos
  deriving DecidableEq, Repr

namespace Mark

/-- The marks of a run: only its first command has a position. -/
def run (c : Command) (pos : Pos) : Nat → List Mark
  | 0 => []
  | n + 1 => ⟨c, some pos⟩ :: List.replicate n ⟨c, none⟩

theorem run_succ (c : Command) (pos : Pos) {n : Nat} (h : 1 ≤ n) :
    run c pos (n + 1) = run c pos n ++ [⟨c, none⟩] := by
  obtain ⟨n, rfl⟩ := Nat.exists_eq_add_of_le' h
  rw [run, run, List.replicate_succ', List.cons_append]

theorem map_command_run (c : Command) (pos : Pos) (n : Nat) :
    (run c pos n).map command = List.replicate n c := by
  cases n with
  | zero => rfl
  | succ n => rw [run, List.map_cons, List.map_replicate, List.replicate_succ]

/-- The positions that are kept. -/
def kept (ms : List Mark) : List Pos :=
  ms.filterMap pos?

theorem kept_some (c : Command) (pos : Pos) (ms : List Mark) :
    kept (⟨c, some pos⟩ :: ms) = pos :: kept ms := rfl

theorem kept_append (ms ns : List Mark) : kept (ms ++ ns) = kept ms ++ kept ns :=
  List.filterMap_append

theorem eq_of_mem_kept_run {c : Command} {pos p : Pos} {n : Nat} (h : p ∈ kept (run c pos n)) :
    p = pos := by
  cases n with
  | zero => cases h
  | succ n => simpa [run, kept] using h

/-- The marks are the commands of the text `src`, which follows the bytes `before` in a source.
    A position that is kept is that of the byte. -/
inductive Covers (filename : String) : Bytes → Bytes → List Mark → Prop
  | nil {before : Bytes} : Covers filename before [] []
  | comment {before src : Bytes} {b : UInt8} {ms : List Mark} : Command.ofByte? b = none →
      Covers filename (before ++ [b]) src ms → Covers filename before (b :: src) ms
  | command {before src : Bytes} {m : Mark} {ms : List Mark} :
      (∀ pos ∈ m.pos?, pos = .after filename before) →
      Covers filename (before ++ [m.command.toByte]) src ms →
      Covers filename before (m.command.toByte :: src) (m :: ms)

namespace Covers

variable {filename : String} {before src : Bytes} {m : Mark} {ms ns : List Mark}

theorem commands (h : Covers filename before src ms) : src.commands = ms.map Mark.command := by
  induction h with
  | nil => rfl
  | comment hb _ ih => rw [Bytes.commands, List.filterMap_cons_none hb, ← ih, Bytes.commands]
  | command _ _ ih =>
    rw [Bytes.commands, List.filterMap_cons_some (Command.ofByte?_toByte _), List.map_cons, ← ih,
      Bytes.commands]

/-- A cover is cut where its marks are. -/
theorem append {l : List Mark} (h : Covers filename before src l) (hl : l = ms ++ ns) :
    ∃ front back, src = front ++ back ∧ Covers filename before front ms ∧
      Covers filename (before ++ front) back ns := by
  induction h generalizing ms with
  | nil =>
    obtain ⟨rfl, rfl⟩ := List.append_eq_nil_iff.1 hl.symm
    exact ⟨[], [], rfl, .nil, .nil⟩
  | comment hb _ ih =>
    obtain ⟨front, back, rfl, hfront, hback⟩ := ih hl
    rw [List.append_assoc] at hback
    exact ⟨_ :: front, back, rfl, .comment hb hfront, hback⟩
  | @command before src m _ hpos hrest ih =>
    cases ms with
    | nil =>
      obtain rfl : m :: _ = ns := hl
      exact ⟨[], m.command.toByte :: src, rfl, .nil, by
        rw [List.append_nil]
        exact .command hpos hrest⟩
    | cons m' ms =>
      rw [List.cons_append, List.cons.injEq] at hl
      obtain ⟨rfl, hl⟩ := hl
      obtain ⟨front, back, rfl, hfront, hback⟩ := ih hl
      rw [List.append_assoc] at hback
      exact ⟨m.command.toByte :: front, back, rfl, .command hpos hfront, hback⟩

/-- The first mark of a cover stands on the first command byte. -/
theorem cons {l : List Mark} (h : Covers filename before src l) (hl : l = m :: ms) :
    ∃ front back, src = front ++ m.command.toByte :: back ∧ front.commands = [] ∧
      (∀ pos ∈ m.pos?, pos = .after filename (before ++ front)) ∧
      Covers filename (before ++ front ++ [m.command.toByte]) back ms := by
  induction h with
  | nil => cases hl
  | @comment before _ b _ hb _ ih =>
    obtain ⟨front, back, rfl, hnone, hpos, hback⟩ := ih hl
    rw [List.append_assoc before [b] front] at hpos hback
    exact ⟨b :: front, back, rfl, (List.filterMap_cons_none hb).trans hnone, hpos, hback⟩
  | @command before src m' ms' hpos hrest _ =>
    cases hl
    exact ⟨[], src, rfl, rfl, by rwa [List.append_nil], by rwa [List.append_nil]⟩

/-- The positions that are kept are in the text, in order. -/
theorem offsets (h : Covers filename before src ms) :
    (∀ pos ∈ kept ms, (before.length : Int) ≤ pos.offset ∧ pos.offset < (before ++ src).length) ∧
      (kept ms).Pairwise fun p q => p.offset < q.offset := by
  induction h with
  | nil => exact ⟨fun _ hmem => absurd hmem List.not_mem_nil, .nil⟩
  | comment _ _ ih =>
    rw [List.append_assoc, List.singleton_append] at ih
    refine ⟨fun pos hmem => ?_, ih.2⟩
    have := ih.1 pos hmem
    rw [List.length_append, List.length_singleton] at this
    omega
  | @command before src m ms hpos _ ih =>
    rw [List.append_assoc, List.singleton_append] at ih
    have hlater : ∀ q ∈ kept ms, (before.length : Int) < q.offset ∧
        q.offset < (before ++ m.command.toByte :: src).length := by
      intro q hq
      have := ih.1 q hq
      rw [List.length_append, List.length_singleton] at this
      omega
    obtain ⟨c, pos?⟩ := m
    cases pos? with
    | none => exact ⟨fun q hq => ⟨(hlater q hq).1.le, (hlater q hq).2⟩, ih.2⟩
    | some pos =>
      -- The mark itself is where the text starts, and all others are behind it.
      have hoffset : pos.offset = before.length := by rw [hpos pos rfl]; rfl
      rw [kept_some, List.forall_mem_cons, List.pairwise_cons, hoffset]
      refine ⟨⟨⟨le_rfl, ?_⟩, fun q hq => ⟨(hlater q hq).1.le, (hlater q hq).2⟩⟩,
        fun q hq => (hlater q hq).1, ih.2⟩
      rw [List.length_append, List.length_cons]
      omega

end Covers

end Mark

/-! ## The marks of a tree -/

namespace Stmt

mutual

/-- The commands that a statement stands for, each with the position kept for it. -/
def marks : Stmt → List Mark
  | .repeated step pos n => Mark.run step.command pos n
  | .printChar pos => [⟨.put, some pos⟩]
  | .readChar pos => [⟨.get, some pos⟩]
  | .loop pos body close => ⟨.enter, some pos⟩ :: (marksList body ++ [⟨.leave, some close⟩])
  | .foreign .. | .absent => []

/-- The commands that a statement list stands for, each with the position kept for it. -/
def marksList : List Stmt → List Mark
  | [] => []
  | s :: rest => s.marks ++ marksList rest

end

theorem marksList_append (xs ys : List Stmt) :
    marksList (xs ++ ys) = marksList xs ++ marksList ys := by
  induction xs with
  | nil => rfl
  | cons s xs ih => rw [List.cons_append, marksList, marksList, ih, List.append_assoc]

theorem marksList_singleton (s : Stmt) : marksList [s] = s.marks := by
  rw [marksList, marksList, List.append_nil]

theorem map_command_marksList (body : List Stmt) :
    (marksList body).map Mark.command = commandsList body := by
  induction body using listInduction with
  | nil => rfl
  | leaf s rest hs ih =>
    have hleaf : s.marks.map Mark.command = s.commands := by
      cases s with
      | repeated step pos n => exact Mark.map_command_run step.command pos n
      | loop => cases hs
      | _ => rfl
    rw [marksList, commandsList, List.map_append, hleaf, ih]
  | loop pos body close rest ihbody ih =>
    rw [marksList, commandsList, List.map_append, ih, marks, commands, List.map_cons,
      List.map_append, ihbody]
    rfl

/-- The first command of a statement has the position of the statement. -/
theorem marks_eq_lead_cons {s : Stmt} (hk : s.isKnown) (hc : s.isCounted) :
    ∃ c ms, s.lead = some c ∧ s.marks = ⟨c, some s.pos⟩ :: ms := by
  cases s with
  | repeated step pos n =>
    obtain ⟨n, rfl⟩ : ∃ m, n = m + 1 := Nat.exists_eq_add_of_le' (by simpa [isCounted] using hc)
    exact ⟨step.command, _, rfl, rfl⟩
  | printChar | readChar | loop => exact ⟨_, _, rfl, rfl⟩
  | foreign | absent => cases hk

/-- The marks of a statement stand together among those of the tree. -/
theorem exists_of_mem_nodesList {body : List Stmt} {s : Stmt} (h : s ∈ nodesList body) :
    ∃ front back, marksList body = front ++ (s.marks ++ back) := by
  induction body using listInduction with
  | nil => cases h
  | leaf t rest ht ih =>
    rw [nodesList, nodes_leaf ht, List.singleton_append, List.mem_cons] at h
    rcases h with rfl | h
    · exact ⟨[], marksList rest, rfl⟩
    · obtain ⟨front, back, hmarks⟩ := ih h
      exact ⟨t.marks ++ front, back, by rw [marksList, hmarks, List.append_assoc]⟩
  | loop pos body close rest ihbody ih =>
    rw [nodesList, nodes, List.cons_append, List.mem_cons, List.mem_append] at h
    rcases h with rfl | h | h
    · exact ⟨[], marksList rest, rfl⟩
    · obtain ⟨front, back, hmarks⟩ := ihbody h
      exact ⟨⟨.enter, some pos⟩ :: front, back ++ ⟨.leave, some close⟩ :: marksList rest, by
        simp [marksList, marks, hmarks]⟩
    · obtain ⟨front, back, hmarks⟩ := ih h
      exact ⟨marks (.loop pos body close) ++ front, back, by
        rw [marksList, hmarks, List.append_assoc]⟩

/-- The positions of the statements in preorder are some of those kept, in the same order. -/
theorem map_pos_nodesList_sublist {body : List Stmt} (h : Sound body) :
    List.Sublist ((nodesList body).map pos) (Mark.kept (marksList body)) := by
  induction body using listInduction with
  | nil => exact .slnil
  | leaf s rest hs ih =>
    obtain ⟨c, ms, -, hmarks⟩ := marks_eq_lead_cons h.head.1 h.head.2
    rw [nodesList, nodes_leaf hs, marksList, hmarks, Mark.kept_append, Mark.kept_some,
      List.singleton_append, List.map_cons, List.cons_append]
    exact ((ih h.tail).trans (List.sublist_append_right _ _)).cons_cons _
  | loop p body close rest ihbody ih =>
    obtain ⟨-, hbody, hrest⟩ := (everywhere_loop ..).1 h
    rw [nodesList, nodes, marksList, marks, Mark.kept_append, Mark.kept_some, Mark.kept_append,
      List.map_append, List.map_cons, List.cons_append, List.cons_append]
    exact (((ihbody hbody).trans (List.sublist_append_left _ _)).append (ih hrest)).cons_cons _

end Stmt

/-! ## The marks of a parse -/

namespace Parser.Frames

/-- The marks before the innermost open list: those of the lists around it, each with the
    bracket that opens the next. -/
def marksBefore : List OpenLoop → List Mark
  | [] => []
  | l :: loops => marksBefore loops ++ Stmt.marksList l.before.reverse ++ [⟨.enter, some l.pos⟩]

/-- The marks of the open lists. -/
def marks (f : Frames) : List Mark :=
  marksBefore f.loops ++ Stmt.marksList f.body.reverse

/-- What stands at the end of the innermost list has a position, so that a run there can
    grow. -/
def Joinable (f : Frames) : Prop :=
  ∀ s ∈ f.body.head?, s.isCounted

/-- One command, which stands at `pos`, makes `f'` of `f`. -/
def Adds (f f' : Frames) (c : Command) (pos : Pos) : Prop :=
  f'.Joinable ∧ ∃ m : Mark, m.command = c ∧ (∀ p ∈ m.pos?, p = pos) ∧ f'.marks = f.marks ++ [m]

theorem joinable_of_body {f : Frames} (h : f.body = []) : f.Joinable := by
  intro s hs
  rw [h] at hs
  cases hs

theorem marks_push (f : Frames) (s : Stmt) : (f.push s).marks = f.marks ++ s.marks := by
  rw [marks, marks, push, List.reverse_cons, Stmt.marksList_append, Stmt.marksList_singleton,
    List.append_assoc]

theorem adds_push (f : Frames) {s : Stmt} {c : Command} {pos : Pos}
    (hs : s.marks = [⟨c, some pos⟩]) (hc : s.isCounted) : f.Adds (f.push s) c pos := by
  refine ⟨?_, ⟨c, some pos⟩, rfl, by simp, by rw [marks_push, hs]⟩
  intro t ht
  cases ht
  exact hc

/-- A step that joins a run leaves the position of the run alone. -/
theorem Joinable.adds_pushStep {f : Frames} (h : f.Joinable) (step : Step) (pos : Pos) :
    f.Adds (f.pushStep step pos) step.command pos := by
  unfold pushStep
  split
  · next step' pos' n before hbody =>
    split_ifs with heq
    · subst heq
      have hn : 1 ≤ n := by
        have hcounted := h (.repeated step' pos' n) (by rw [hbody]; rfl)
        simpa [Stmt.isCounted] using hcounted
      refine ⟨?_, ⟨step'.command, none⟩, rfl, by simp, ?_⟩
      · intro t ht
        cases ht
        simp [Stmt.isCounted]
      · rw [marks, marks, hbody, List.reverse_cons, List.reverse_cons, Stmt.marksList_append,
          Stmt.marksList_append, Stmt.marksList_singleton, Stmt.marksList_singleton, Stmt.marks,
          Stmt.marks, Mark.run_succ _ _ hn, List.append_assoc, List.append_assoc]
    · exact f.adds_push rfl rfl
  · exact f.adds_push rfl rfl

theorem adds_enter (f : Frames) (pos : Pos) : f.Adds (f.enter pos) .enter pos := by
  refine ⟨joinable_of_body rfl, ⟨.enter, some pos⟩, rfl, by simp, ?_⟩
  simp [marks, enter, marksBefore, Stmt.marksList]

theorem adds_leave {f : Frames} {l : OpenLoop} {loops : List OpenLoop} (hl : f.loops = l :: loops)
    (pos : Pos) :
    f.Adds { loops, body := .loop l.pos f.body.reverse pos :: l.before } .leave pos := by
  refine ⟨?_, ⟨.leave, some pos⟩, rfl, by simp, ?_⟩
  · intro t ht
    cases ht
    rfl
  · rw [marks, marks, hl]
    simp [marksBefore, Stmt.marksList_append, Stmt.marksList, Stmt.marks]

/-- A command adds a mark, or ends the parse with an error. -/
theorem Joinable.take {f : Frames} (h : f.Joinable) (c : Command) (pos : Pos) :
    (∃ f', f.take ⟨.command c, pos⟩ = .more f' ∧ f.Adds f' c pos) ∨
      ∃ e, f.take ⟨.command c, pos⟩ = .done (.error e) := by
  cases c with
  | right => exact .inl ⟨_, rfl, h.adds_pushStep .moveRight pos⟩
  | left => exact .inl ⟨_, rfl, h.adds_pushStep .moveLeft pos⟩
  | add => exact .inl ⟨_, rfl, h.adds_pushStep .increment pos⟩
  | sub => exact .inl ⟨_, rfl, h.adds_pushStep .decrement pos⟩
  | put | get => exact .inl ⟨_, rfl, f.adds_push rfl rfl⟩
  | enter => exact .inl ⟨_, rfl, f.adds_enter pos⟩
  | leave =>
    cases hl : f.loops with
    | nil => exact .inr ⟨_, by simp only [Frames.take, hl]; rfl⟩
    | cons l loops => exact .inl ⟨_, by simp only [Frames.take, hl], adds_leave hl pos⟩

/-- What a parse adds to the open lists covers the text that is read. -/
theorem Joinable.run {filename : String} {before after : Bytes} {f : Frames} {t : Located}
    {ts : List Located} {body : List Stmt} (h : f.Joinable)
    (hts : Located.along filename before after = t :: ts)
    (hrun : (Parser.run f t ts).body = .ok body) :
    ∃ ms, Stmt.marksList body = f.marks ++ ms ∧ Mark.Covers filename before after ms := by
  induction after generalizing before f t ts with
  | nil =>
    cases hts
    rw [Parser.run, take_eof] at hrun
    -- Nothing is open, so the list at hand is the whole program.
    cases hl : f.loops with
    | nil =>
      simp only [finish, hl] at hrun
      cases hrun
      exact ⟨[], by rw [marks, hl, List.append_nil]; rfl, .nil⟩
    | cons l loops =>
      simp only [finish, hl] at hrun
      cases hrun
  | cons b after ih =>
    rw [Located.along, Located.atByte] at hts
    cases hb : Command.ofByte? b with
    | none =>
      rw [hb] at hts
      obtain ⟨ms, hms, hcovers⟩ := ih h hts hrun
      exact ⟨ms, hms, .comment hb hcovers⟩
    | some c =>
      obtain rfl := Command.ofByte?_eq_some hb
      obtain ⟨t', ts', hts'⟩ := along_eq_cons filename (before ++ [c.toByte]) after
      rw [hb, hts', Option.map_some, Option.toList_some, List.singleton_append,
        List.cons.injEq] at hts
      obtain ⟨rfl, rfl⟩ := hts
      rcases h.take c (.after filename before) with
        ⟨f', htake, hjoinable, m, rfl, hpos, hmarks⟩ | ⟨e, htake⟩
      · rw [Parser.run, htake] at hrun
        obtain ⟨ms, hms, hcovers⟩ := ih hjoinable hts' hrun
        exact ⟨m :: ms, by rw [hms, hmarks, List.append_assoc]; rfl, .command hpos hcovers⟩
      · rw [Parser.run, htake] at hrun
        cases hrun

end Parser.Frames

/-- The first token stands at the first command, or at the end if there is none. -/
theorem Located.along_head {filename : String} {before src : Bytes} {t : Located}
    {ts : List Located} (h : along filename before src = t :: ts) :
    ∃ front back, src = front ++ back ∧ front.commands = [] ∧
      t.pos = .after filename (before ++ front) ∧
      (back = [] ∨ ∃ (c : Command) (rest : Bytes), back = c.toByte :: rest) := by
  induction src generalizing before with
  | nil =>
    cases h
    exact ⟨[], [], rfl, rfl, by rw [List.append_nil], .inl rfl⟩
  | cons b src ih =>
    rw [along, atByte] at h
    cases hb : Command.ofByte? b with
    | none =>
      rw [hb] at h
      obtain ⟨front, back, rfl, hnone, hpos, hback⟩ := ih h
      rw [List.append_assoc before [b] front] at hpos
      exact ⟨b :: front, back, rfl, (List.filterMap_cons_none hb).trans hnone, hpos, hback⟩
    | some c =>
      rw [hb, Option.map_some, Option.toList_some, List.singleton_append, List.cons.injEq] at h
      refine ⟨[], b :: src, rfl, rfl, ?_, .inr ⟨c, src, by rw [Command.ofByte?_eq_some hb]⟩⟩
      rw [← h.1, List.append_nil]

/-- The marks of a parsed tree cover its source, and the tree stands where the first token
    does. -/
theorem Program.covers_of_parse {filename : String} {src : Bytes} {program : Program}
    (h : Program.parse (.ofBytes filename src) = .ok program) :
    Mark.Covers filename [] src (Stmt.marksList program.body) ∧
      ∃ t ts, Located.along filename [] src = t :: ts ∧ program.pos = t.pos := by
  obtain ⟨t, ts, hts⟩ := Parser.Frames.along_eq_cons filename [] src
  have hparser : Parser.ofSource (.ofBytes filename src) = { current := t, rest := ts } := by
    rw [Parser.ofSource, Source.tokens_ofBytes, hts]
    rfl
  have hresult := (Parser.parse_eq_run (p := { current := t, rest := ts }) rfl).1
  have hok : (Parser.ofSource (.ofBytes filename src)).parse.1 = .ok program := h
  rw [← hparser, hok] at hresult
  cases hrun : (Parser.run {} t ts).body with
  | error e =>
    rw [hparser, hrun] at hresult
    cases hresult
  | ok body =>
    rw [hparser, hrun] at hresult
    cases hresult
    obtain ⟨ms, hms, hcovers⟩ := (Parser.Frames.joinable_of_body rfl).run hts hrun
    exact ⟨hms ▸ hcovers, t, ts, hts, rfl⟩

/-! ## Positions and the source -/

namespace Bytes

/-- The bytes from the index `i` up to the index `j`. -/
def between (src : Bytes) (i j : Nat) : Bytes :=
  (src.take j).drop i

/-- The bytes at `i` and `j` are an opening bracket and the closing one that belongs to it: the
    brackets between them are balanced. -/
def Matching (src : Bytes) (i j : Nat) : Prop :=
  i < j ∧ src[i]? = some 0x5B ∧ src[j]? = some 0x5D ∧ (src.between (i + 1) j).IsBalanced

theorem between_append (front mid back : Bytes) :
    between (front ++ (mid ++ back)) front.length (front ++ mid).length = mid := by
  rw [between, ← List.append_assoc, List.take_left, List.drop_left]

theorem between_append_cons (front text back : Bytes) (b : UInt8) :
    between (front ++ b :: text ++ back) (front.length + 1) (front ++ b :: text).length = text := by
  have h := between_append (front ++ [b]) text back
  rwa [← List.append_assoc, List.append_assoc front, List.singleton_append, List.length_append,
    List.length_singleton] at h

/-- Brackets around a balanced text belong together. -/
theorem matching_append {text : Bytes} (h : text.IsBalanced) (front back : Bytes) :
    Matching (front ++ Command.enter.toByte :: text ++ Command.leave.toByte :: back) front.length
      (front ++ Command.enter.toByte :: text).length := by
  refine ⟨?_, ?_, ?_, ?_⟩
  · rw [List.length_append, List.length_cons]
    omega
  · simp [Command.toByte]
  · simp [Command.toByte]
  · rwa [between_append_cons]

/-- A text that has the commands of a tree is balanced. -/
theorem isBalanced_of_commands {src : Bytes} {body : List Stmt}
    (h : src.commands = Stmt.commandsList body) : src.IsBalanced := by
  have hbytes : src.commandBytes = commandBytes (Program.flatten ⟨{}, body⟩) := by
    rw [← map_toByte_commands, ← map_toByte_commands, Program.flatten, commands_map_toByte, h]
  exact (isBalanced_congr hbytes).2 (Program.isBalanced_flatten _)

end Bytes

/-- The position is that of the byte at `i`, or of the end of the source. -/
def Pos.IsAt (filename : String) (src : Bytes) (i : Nat) (pos : Pos) : Prop :=
  i ≤ src.length ∧ pos = .after filename (src.take i)

theorem Pos.isAt_append (filename : String) (front back : Bytes) :
    IsAt filename (front ++ back) front.length (.after filename front) :=
  ⟨by simp, by rw [List.take_left]⟩

/-- The positions of the tree are those of what its nodes stand for in the source. -/
structure Program.PointsInto (filename : String) (src : Bytes) (p : Program) : Prop where
  /-- In preorder, each statement stands behind the one before it. -/
  preorder : ((Stmt.nodesList p.body).map fun s => s.pos.offset).Pairwise (· < ·)
  /-- A statement stands where its first command is. -/
  lead : ∀ s ∈ Stmt.nodesList p.body, ∃ i c, s.pos.IsAt filename src i ∧ s.lead = some c ∧
    src[i]? = some c.toByte
  /-- From where a counted leaf stands, its command follows as often as it counts. No other
      statement stands before the last of these. -/
  counted : ∀ step pos n, .repeated step pos n ∈ Stmt.nodesList p.body →
    ∃ i j, pos.IsAt filename src i ∧
      (src.between i j).commandBytes = List.replicate n step.command.toByte ∧
      ∀ s ∈ Stmt.nodesList p.body, s.pos.offset ≤ i ∨ j ≤ s.pos.offset
  /-- The two positions of a loop are those of brackets that belong together, and between them
      are the commands of its body. -/
  loops : ∀ pos body close, .loop pos body close ∈ Stmt.nodesList p.body →
    ∃ i j, pos.IsAt filename src i ∧ close.IsAt filename src j ∧ src.Matching i j ∧
      (src.between (i + 1) j).commandBytes = (Stmt.commandsList body).map Command.toByte
  /-- The tree stands at the first command, or at the end of the input if there is none. -/
  root : ∃ i, p.pos.IsAt filename src i ∧ Bytes.commands (src.take i) = [] ∧
    (i = src.length ∨ ∃ c : Command, src[i]? = some c.toByte)

namespace Mark.Covers

variable {filename : String} {src : Bytes} {body : List Stmt} {s : Stmt}

/-- The cover of a tree, cut around the marks of one of its statements. -/
theorem node (h : Covers filename [] src (Stmt.marksList body)) (hbody : Stmt.Sound body)
    (hs : s ∈ Stmt.nodesList body) :
    ∃ (front mid back : Bytes) (c : Command) (ms : List Mark),
      src = front ++ (c.toByte :: mid ++ back) ∧ s.pos = .after filename front ∧ s.lead = some c ∧
      s.marks = ⟨c, some s.pos⟩ :: ms ∧ Covers filename (front ++ [c.toByte]) mid ms ∧
      ∀ pos ∈ kept (Stmt.marksList body), pos.offset < front.length ∨ pos ∈ kept s.marks ∨
        (front ++ c.toByte :: mid).length ≤ pos.offset := by
  obtain ⟨ls, rs, hmarks⟩ := Stmt.exists_of_mem_nodesList hs
  obtain ⟨c, ms, hlead, hms⟩ := Stmt.marks_eq_lead_cons (hbody s hs).1 (hbody s hs).2
  obtain ⟨left, rest, rfl, hleft, hrest⟩ := h.append hmarks
  obtain ⟨own, back, rfl, hown, hback⟩ := hrest.append rfl
  obtain ⟨gap, mid, rfl, -, hpos, hmid⟩ := hown.cons hms
  refine ⟨left ++ gap, mid, back, c, ms, by simp, ?_, hlead, hms, hmid, ?_⟩
  · exact hpos s.pos rfl
  · intro pos hkept
    rw [hmarks, kept_append, kept_append, List.mem_append, List.mem_append] at hkept
    rcases hkept with hpos | hpos | hpos
    · have := (hleft.offsets.1 pos hpos).2
      rw [List.nil_append] at this
      rw [List.length_append]
      omega
    · exact .inr (.inl hpos)
    · have := (hback.offsets.1 pos hpos).1
      rw [List.nil_append, ← List.append_assoc] at this
      exact .inr (.inr this)

/-- A counted leaf covers as many commands as it counts, and no other statement stands among
    them. -/
theorem counted {step : Step} {pos : Pos} {n : Nat}
    (h : Covers filename [] src (Stmt.marksList body)) (hbody : Stmt.Sound body)
    (hs : .repeated step pos n ∈ Stmt.nodesList body) :
    ∃ i j, pos.IsAt filename src i ∧
      (src.between i j).commandBytes = List.replicate n step.command.toByte ∧
      ∀ s ∈ Stmt.nodesList body, s.pos.offset ≤ i ∨ j ≤ s.pos.offset := by
  obtain ⟨front, mid, back, c, ms, rfl, hpos, -, hms, hmid, hothers⟩ := h.node hbody hs
  have hn : (⟨c, some pos⟩ :: ms).map Mark.command = List.replicate n step.command := by
    rw [← map_command_run step.command pos n]
    exact congrArg (List.map Mark.command) hms.symm
  refine ⟨front.length, (front ++ c.toByte :: mid).length, ?_, ?_, ?_⟩
  · rw [show pos = .after filename front from hpos]
    exact Pos.isAt_append ..
  · rw [Bytes.between_append, ← Bytes.map_toByte_commands, ← List.singleton_append,
      Bytes.commands_append, Bytes.commands_toByte, hmid.commands, List.singleton_append,
      ← List.map_replicate, ← hn]
    rfl
  · intro t ht
    have hkept := (Stmt.map_pos_nodesList_sublist hbody).subset (List.mem_map_of_mem ht)
    rcases hothers _ hkept with hlt | hown | hle
    · exact .inl hlt.le
    · -- Of the leaf's own commands only the first has a position.
      rw [eq_of_mem_kept_run hown, show pos = .after filename front from hpos]
      exact .inl le_rfl
    · exact .inr hle

/-- The brackets of a loop belong together, and its body covers what is between them. -/
theorem loop {pos close : Pos} {inner : List Stmt}
    (h : Covers filename [] src (Stmt.marksList body)) (hbody : Stmt.Sound body)
    (hs : .loop pos inner close ∈ Stmt.nodesList body) :
    ∃ i j, pos.IsAt filename src i ∧ close.IsAt filename src j ∧ src.Matching i j ∧
      (src.between (i + 1) j).commandBytes = (Stmt.commandsList inner).map Command.toByte := by
  obtain ⟨front, mid, back, c, ms, rfl, hpos, -, hms, hmid, -⟩ := h.node hbody hs
  obtain ⟨hopen, rfl⟩ := List.cons.inj hms
  cases hopen
  -- The text behind the opening bracket is the body, comments, the closing bracket and the rest.
  obtain ⟨text, rest, rfl, htext, hrest⟩ := hmid.append rfl
  obtain ⟨gap, rest, rfl, hgap, hclose, -⟩ := hrest.cons rfl
  have hcommands : Bytes.commands (text ++ gap) = Stmt.commandsList inner := by
    rw [Bytes.commands_append, hgap, List.append_nil, htext.commands, Stmt.map_command_marksList]
  have hsrc : front ++ (Command.enter.toByte ::
        (text ++ (gap ++ Command.leave.toByte :: rest)) ++ back) =
      front ++ Command.enter.toByte :: (text ++ gap) ++ Command.leave.toByte :: (rest ++ back) := by
    simp
  have hfront : front ++ [Command.enter.toByte] ++ text ++ gap =
      front ++ Command.enter.toByte :: (text ++ gap) := by
    simp
  rw [hsrc]
  refine ⟨front.length, (front ++ Command.enter.toByte :: (text ++ gap)).length, ?_, ?_, ?_, ?_⟩
  · rw [show pos = .after filename front from hpos, List.append_assoc]
    exact Pos.isAt_append ..
  · rw [hclose close rfl, hfront]
    exact Pos.isAt_append ..
  · exact Bytes.matching_append (Bytes.isBalanced_of_commands hcommands) ..
  · rw [Bytes.between_append_cons, ← Bytes.map_toByte_commands, hcommands]

end Mark.Covers

namespace Program

variable {filename : String} {src : Bytes} {program : Program}

/-- A parsed tree points at its source. -/
theorem pointsInto_of_parse (h : Program.parse (.ofBytes filename src) = .ok program) :
    program.PointsInto filename src := by
  obtain ⟨hcovers, t, ts, hts, hroot⟩ := covers_of_parse h
  have hsound : Stmt.Sound program.body := (canonical_of_parse h).1.1
  refine ⟨?_, ?_, ?_, ?_, ?_⟩
  · have hsorted := hcovers.offsets.2.sublist (Stmt.map_pos_nodesList_sublist hsound)
    rw [List.pairwise_map] at hsorted ⊢
    exact hsorted
  · intro s hs
    obtain ⟨front, mid, back, c, ms, rfl, hpos, hlead, -⟩ := hcovers.node hsound hs
    exact ⟨front.length, c, hpos ▸ Pos.isAt_append .., hlead, by simp⟩
  · intro step pos n hs
    exact hcovers.counted hsound hs
  · intro pos body close hs
    exact hcovers.loop hsound hs
  · obtain ⟨front, back, rfl, hnone, hpos, hback⟩ := Located.along_head hts
    refine ⟨front.length, ?_, by rwa [List.take_left], ?_⟩
    · rw [hroot, hpos]
      exact Pos.isAt_append ..
    · rcases hback with rfl | ⟨c, rest, rfl⟩
      · exact .inl (by simp)
      · exact .inr ⟨c, by simp⟩

/-- The source `x+c+`, a line feed and `[-c]`. The run goes over a comment, and so does the loop
    before its closing bracket. -/
theorem pointsInto_of_parse_comments :
    let src : Bytes := [0x78, 0x2B, 0x63, 0x2B, 0x0A, 0x5B, 0x2D, 0x63, 0x5D]
    ∃ program, Program.parse (.ofBytes "t.bf" src) = .ok program ∧
      program.pos = ⟨"t.bf", 1, 2, 1⟩ ∧
      program.body = [.repeated .increment ⟨"t.bf", 1, 2, 1⟩ 2,
        .loop ⟨"t.bf", 2, 1, 5⟩ [.repeated .decrement ⟨"t.bf", 2, 2, 6⟩ 1] ⟨"t.bf", 2, 4, 8⟩] ∧
      program.PointsInto "t.bf" src :=
  ⟨_, rfl, rfl, rfl, pointsInto_of_parse rfl⟩

end Program

end TapeCompiler
