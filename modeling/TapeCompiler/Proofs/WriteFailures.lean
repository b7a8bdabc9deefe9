import TapeCompiler.Proofs.Statistics
import TapeCompiler.Target.Assembly
import TapeCompiler.Target.C
import TapeCompiler.Target.Emission

/-!
# Generating to a writer that fails

A walk over a tree writes its chunks one by one, and goes on after a write has failed. So
it does what lowering does, whatever the writer (`Stmt.mirrors_emitList`): it offers the
same chunks, takes the same labels and stops at the same fault. What becomes of the chunks
is up to the writer (`Writer.writeAll_room`): it takes as many as it has room for, fails
once, and is not called again.

How many chunks there are can be read off the statistics of the tree
(`Program.length_chunksAfter`). Together that is `Program.generateTo_cut`.
-/

namespace TapeCompiler

/-! ## Writers -/

namespace Writer

variable {w : Writer} {n : Nat}

theorem writeAll_cons (w : Writer) (c : Chunk) (cs : List Chunk) :
    w.writeAll (c :: cs) = (w.write c).writeAll cs := rfl

theorem writeAll_append (w : Writer) (cs ds : List Chunk) :
    w.writeAll (cs ++ ds) = (w.writeAll cs).writeAll ds :=
  List.foldl_append

/-- After a failure nothing is written any more. -/
theorem writeAll_of_failure {message : String} (h : w.failure? = some message) (cs : List Chunk) :
    w.writeAll cs = w := by
  induction cs with
  | nil => rfl
  | cons c cs ih =>
    have hwrite : w.write c = w := by simp only [write, h]
    rw [writeAll_cons, hwrite, ih]

theorem writeAll_of_no_limit (hroom : w.room = none) (hfailure : w.failure? = none)
    (cs : List Chunk) : w.writeAll cs =
      { w with calls := w.calls + cs.length, written := cs.reverse ++ w.written } := by
  induction cs generalizing w with
  | nil => rfl
  | cons c cs ih =>
    have hwrite : w.write c = { w with calls := w.calls + 1, written := c :: w.written } := by
      simp only [write, hfailure, hroom]
    rw [writeAll_cons, hwrite, ih (w := { w with calls := w.calls + 1, written := c :: w.written })
      hroom hfailure]
    simp [Nat.add_assoc, Nat.add_comm 1]

/-- A writer with room for `n` chunks takes the first `n` of them, and fails at the next if
    there is one. -/
theorem writeAll_room (hroom : w.room = some n) (hfailure : w.failure? = none)
    (cs : List Chunk) :
    (w.writeAll cs).calls = w.calls + min (n + 1) cs.length ∧
    (w.writeAll cs).written = (cs.take n).reverse ++ w.written ∧
    (w.writeAll cs).failure? = if n < cs.length then some w.complaint else none := by
  induction cs generalizing w n with
  | nil => simp [writeAll, hfailure]
  | cons c cs ih =>
    cases n with
    | zero =>
      have hwrite : w.write c = { w with calls := w.calls + 1, failure? := some w.complaint } := by
        simp only [write, hfailure, hroom]
      rw [writeAll_cons, hwrite, writeAll_of_failure rfl]
      simp
    | succ n =>
      have hwrite : w.write c =
          { w with room := some n, calls := w.calls + 1, written := c :: w.written } := by
        simp only [write, hfailure, hroom]
      obtain ⟨hcalls, hwritten, hfailed⟩ := ih (w := w.write c) (by rw [hwrite])
        (by rw [hwrite]; exact hfailure)
      rw [writeAll_cons, hcalls, hwritten, hfailed, hwrite]
      refine ⟨?_, ?_, ?_⟩
      · rw [List.length_cons]
        dsimp only
        omega
      · rw [List.take_succ_cons, List.reverse_cons, List.append_assoc]
        rfl
      · simp only [List.length_cons, Nat.add_lt_add_iff_right]

end Writer

/-! ## Walks that write -/

namespace Emitter

variable {α β : Type} {x : Emitter α} {f : α → Emitter β} {e e' : Emission}

theorem run_bind_ok {a : α} (h : x.run e = .ok a e') : (x >>= f).run e = (f a).run e' := by
  rw [EStateM.run_bind, h]

theorem run_bind_error {fault : LoweringFault} (h : x.run e = .error fault e') :
    (x >>= f).run e = .error fault e' := by
  rw [EStateM.run_bind, h]

theorem run_write (c : Chunk) (e : Emission) :
    (write c).run e = .ok () { e with writer := e.writer.write c } := rfl

/-- From any writer a walk does what lowering does from `l`: the chunks that lowering adds go
    to the writer, the labels are the same, and so is the fault. -/
def Mirrors (x : Emitter Unit) (l : Lowering) (r : Except LoweringFault Lowering) : Prop :=
  ∀ w : Writer, match r with
    | .ok l' => ∃ chunks, l'.chunks = chunks.reverse ++ l.chunks ∧
      x.run ⟨w, l.labels⟩ = .ok () ⟨w.writeAll chunks, l'.labels⟩
    | .error fault => ∃ e, x.run ⟨w, l.labels⟩ = .error fault e

namespace Mirrors

variable {x y : Emitter Unit} {l l' : Lowering} {r : Except LoweringFault Lowering}

theorem pure (l : Lowering) : Mirrors (Pure.pure ()) l (.ok l) :=
  fun _ => ⟨[], rfl, rfl⟩

theorem write (l : Lowering) (c : Chunk) : Mirrors (Emitter.write c) l (.ok (l.emit c)) :=
  fun _ => ⟨[c], rfl, rfl⟩

theorem bind_ok (hx : Mirrors x l (.ok l')) (hy : Mirrors y l' r) :
    Mirrors (do x; y) l r := by
  intro w
  obtain ⟨chunks, hchunks, hrun⟩ := hx w
  have hbehind := hy (w.writeAll chunks)
  cases r with
  | error fault =>
    obtain ⟨e, he⟩ := hbehind
    exact ⟨e, (run_bind_ok hrun).trans he⟩
  | ok l'' =>
    obtain ⟨more, hmore, hmoreRun⟩ := hbehind
    refine ⟨chunks ++ more, ?_, ?_⟩
    · rw [hmore, hchunks, List.reverse_append, List.append_assoc]
    · rw [run_bind_ok hrun, hmoreRun, Writer.writeAll_append]

/-- One walk after the other, where the second mirrors what lowering does from any state. -/
theorem bind {k : Lowering → Except LoweringFault Lowering} (hx : Mirrors x l r)
    (hy : ∀ l', Mirrors y l' (k l')) : Mirrors (do x; y) l (r.bind k) := by
  cases r with
  | ok l' => exact hx.bind_ok (hy l')
  | error fault =>
    intro w
    obtain ⟨e, he⟩ := hx w
    exact ⟨e, run_bind_error he⟩

theorem writeMany (l : Lowering) (c : Chunk) (n : Nat) :
    Mirrors (Emitter.writeMany c n) l (.ok (l.emitMany n c)) := by
  induction n generalizing l with
  | zero => exact pure l
  | succ n ih =>
    rw [Emitter.writeMany, ← Lowering.emitMany_succ]
    exact (write l c).bind_ok (ih _)

/-- Taking labels changes nothing but the labels. -/
theorem loopLabels {f : LoopLabels → Emitter Unit}
    (h : Mirrors (f l.labels.loop.1) { l with labels := l.labels.loop.2 } r) :
    Mirrors (do let names ← Emitter.loopLabels; f names) l r :=
  h

end Mirrors

end Emitter

namespace Stmt

variable {o : LoweringOptions}

theorem lower_loop (l : Lowering) (pos : Pos) (body : List Stmt) (close : Pos) :
    lower o l (.loop pos body close) =
      (lowerList o { l.emit (o.target.loopEnter l.labels.loop.1) with labels := l.labels.loop.2 }
        body).bind fun l' => .ok (l'.emit (o.target.loopExit l.labels.loop.1)) := by
  cases hbody : lowerList o { l.emit (o.target.loopEnter l.labels.loop.1) with
    labels := l.labels.loop.2 } body <;> simp only [lower, hbody] <;> rfl

theorem lowerList_cons (l : Lowering) (s : Stmt) (rest : List Stmt) :
    lowerList o l (s :: rest) = (s.lower o l).bind fun l' => lowerList o l' rest := by
  rw [lowerList]
  cases s.lower o l <;> rfl

theorem mirrors_emit_leaf {s : Stmt} (hs : s.isLoop = false) (l : Lowering) :
    (s.emit o).Mirrors l (s.lower o l) := by
  cases s with
  | repeated step pos count =>
    rw [emit, Emitter.step, lower, Lowering.step]
    split
    · exact .write l _
    · exact .writeMany l _ count
  | printChar | readChar => exact .write l _
  | loop => cases hs
  | foreign | absent => exact fun w => ⟨⟨w, l.labels⟩, rfl⟩

theorem mirrors_emit_loop (pos : Pos) {body : List Stmt} (close : Pos)
    (hbody : ∀ l, (emitList o body).Mirrors l (lowerList o l body)) (l : Lowering) :
    (emit o (.loop pos body close)).Mirrors l (lower o l (.loop pos body close)) := by
  rw [emit, lower_loop]
  exact .loopLabels ((Emitter.Mirrors.write _ _).bind_ok ((hbody _).bind fun l' => .write l' _))

/-- Writing a tree mirrors lowering it. -/
theorem mirrors_emitList (body : List Stmt) (l : Lowering) :
    (emitList o body).Mirrors l (lowerList o l body) := by
  induction body using listInduction generalizing l with
  | nil => exact .pure l
  | leaf s rest hs ih =>
    rw [emitList, lowerList_cons]
    exact (mirrors_emit_leaf hs l).bind ih
  | loop pos body close rest ihbody ih =>
    rw [emitList, lowerList_cons]
    exact (mirrors_emit_loop pos close ihbody l).bind ih

/-! ## The number of chunks -/

theorem length_chunks_leaf {s : Stmt} (hs : s.isLoop = false) (hk : s.isKnown) :
    ((Scheme.chunks o).leaf s).length = if o.optimized then 1 else s.commands.length := by
  cases s with
  | repeated => simp [Scheme.chunks, LoweringOptions.copies, commands]
  | printChar | readChar => simp [Scheme.chunks, commands]
  | loop => cases hs
  | foreign | absent => cases hk

/-- With optimisation there is a chunk for each leaf and each end of a loop, and without it
    one for each command. -/
theorem length_chunks_block {body : List Stmt} (hknown : Everywhere (·.isKnown) body) (n : Nat) :
    ((Scheme.chunks o).block n body).length =
      if o.optimized then leafCount body + 2 * loopCountList body else (commandsList body).length := by
  induction body using listInduction generalizing n with
  | nil => cases o.optimized <;> rfl
  | leaf s rest hs ih =>
    rw [Scheme.block_leaf hs, List.length_append, length_chunks_leaf hs hknown.head, ih hknown.tail,
      leafCount_leaf hs, loopCountList, loopCount_leaf hs, commandsList, List.length_append]
    split <;> omega
  | loop pos body close rest ihbody ih =>
    obtain ⟨-, hbody, hrest⟩ := (everywhere_loop ..).1 hknown
    simp only [Scheme.block_loop, List.length_append, ihbody hbody, ih hrest, Scheme.enter_chunks,
      Scheme.exit_chunks, leafCount_loop, loopCountList, loopCount, commandsList, commands,
      List.length_cons, List.length_nil]
    split <;> omega

end Stmt

/-- How many writes a tree with these statistics takes, the prologue and the epilogue
    included. -/
def Statistics.writes (st : Statistics) (optimized : Bool) : Nat :=
  if optimized then st.leaves + 2 * st.loops + 2 else st.commands + 2

namespace Program

theorem length_chunksAfter {p : Program} (hknown : Stmt.Everywhere (·.isKnown) p.body)
    (o : LoweringOptions) (n : Nat) :
    (p.chunksAfter n o).length = p.statistics.writes o.optimized := by
  have hblock := Stmt.length_chunks_block (o := o) hknown n
  rw [chunksAfter, List.length_append, List.length_cons, hblock, Statistics.writes,
    statistics_commands hknown, statistics_eq]
  split <;> rfl

/-! ## Programs -/

/-- Generating offers the chunks of the program to the writer, whatever becomes of them. -/
theorem run_generateTo_ok {p : Program} {o : LoweringOptions} {labels labels' : LabelSource}
    {chunks : List Chunk} (h : p.lower o labels = .ok (chunks, labels')) (w : Writer) :
    (p.generateTo o).run ⟨w, labels⟩ =
      .ok (w.writeAll chunks).failure? ⟨w.writeAll chunks, labels'⟩ := by
  have hbody := Stmt.mirrors_emitList (o := o) p.body ⟨[o.target.prologue], labels⟩
    (w.write o.target.prologue)
  rw [lower] at h
  cases hlower : Stmt.lowerList o ⟨[o.target.prologue], labels⟩ p.body with
  | error fault =>
    rw [hlower] at h
    cases h
  | ok l =>
    rw [hlower] at h hbody
    obtain ⟨inner, hinner, hrun⟩ := hbody
    cases h
    rw [generateTo, Emitter.run_bind_ok (Emitter.run_write ..), Emitter.run_bind_ok hrun,
      Emitter.run_bind_ok (Emitter.run_write ..), Lowering.emit, hinner, List.reverse_cons,
      List.reverse_append, List.reverse_reverse, Writer.writeAll_append, Writer.writeAll_append]
    rfl

/-- A program that cannot be lowered cannot be generated, whatever the writer. -/
theorem run_generateTo_error {p : Program} {o : LoweringOptions} {labels : LabelSource}
    {fault : LoweringFault} (h : p.lower o labels = .error fault) (w : Writer) :
    ∃ e, (p.generateTo o).run ⟨w, labels⟩ = .error fault e := by
  have hbody := Stmt.mirrors_emitList (o := o) p.body ⟨[o.target.prologue], labels⟩
    (w.write o.target.prologue)
  rw [lower] at h
  cases hlower : Stmt.lowerList o ⟨[o.target.prologue], labels⟩ p.body with
  | ok l =>
    rw [hlower] at h
    cases h
  | error fault' =>
    rw [hlower] at h hbody
    cases h
    obtain ⟨e, he⟩ := hbody
    exact ⟨e, by rw [generateTo, Emitter.run_bind_ok (Emitter.run_write ..), Emitter.run_bind_error he]⟩

/-- Generating to a writer that accepts `n` writes and then fails. If all statements are known,
    the text that is written is the first `n` chunks of the text without a failure, the writer
    is called once more if there are more chunks than that, and only then is its complaint the
    result. How many chunks there are follows from the statistics, and two labels are taken
    for each loop in any case. Otherwise the first statement in preorder that is not known
    ends generating with a fault, whatever the writer and the labels. -/
theorem generateTo_cut (p : Program) (o : LoweringOptions) (issued : Nat) :
    (Stmt.Everywhere (·.isKnown) p.body →
      ∃ chunks, p.generate o (.counter issued) = .ok (textOf chunks) ∧
        chunks.length = p.statistics.writes o.optimized ∧
        (∃ e, (p.generateTo o).run ⟨{}, .counter issued⟩ = .ok none e ∧
          e.writer.written.reverse = chunks) ∧
        ∀ n complaint, ∃ e,
          (p.generateTo o).run ⟨{ room := some n, complaint }, .counter issued⟩ =
            .ok (if n < p.statistics.writes o.optimized then some complaint else none) e ∧
          e.writer.calls = min (n + 1) (p.statistics.writes o.optimized) ∧
          e.writer.text = textOf (chunks.take (min n (p.statistics.writes o.optimized))) ∧
          e.labels = .counter (issued + 2 * p.statistics.loops)) ∧
    (¬ Stmt.Everywhere (·.isKnown) p.body →
      ∃ s, (Stmt.nodesList p.body).find? (!·.isKnown) = some s ∧
        ∀ start, ∃ e, (p.generateTo o).run start = .error (.unexpected s) e) := by
  refine ⟨fun hknown => ?_, fun hunknown => ?_⟩
  · have hlength := length_chunksAfter hknown o issued
    have hlower := lower_counter hknown o issued
    have hloops : p.statistics.loops = Stmt.loopCountList p.body := by rw [statistics_eq]
    rw [hloops]
    refine ⟨p.chunksAfter issued o, generate_counter hknown o issued, hlength, ?_, ?_⟩
    · have hrun := run_generateTo_ok hlower {}
      rw [Writer.writeAll_of_no_limit rfl rfl] at hrun
      refine ⟨_, hrun, ?_⟩
      rw [List.append_nil, List.reverse_reverse]
    · intro n complaint
      obtain ⟨hcalls, hwritten, hfailed⟩ := Writer.writeAll_room
        (w := { room := some n, complaint }) rfl rfl (p.chunksAfter issued o)
      rw [hlength] at hcalls hfailed
      refine ⟨_, (run_generateTo_ok hlower _).trans (by rw [hfailed]), ?_, ?_, rfl⟩
      · rw [hcalls, Nat.zero_add]
      · rw [Writer.text, hwritten, List.append_nil, List.reverse_reverse, ← hlength,
          ← List.take_eq_take_min]
  · cases hfirst : (Stmt.nodesList p.body).find? (!·.isKnown) with
    | none => exact absurd (Stmt.everywhere_isKnown hfirst) hunknown
    | some s =>
      have hlower : ∀ labels, p.lower o labels = .error (.unexpected s) := by
        intro labels
        rw [lower, Stmt.lowerList_fault hfirst]
      exact ⟨s, rfl, fun start => run_generateTo_error (hlower _) start.writer⟩

/-- The program `+++[-].` loses its text inside the loop, and after a failed write a walk still
    stops at a foreign statement. -/
theorem generateTo_cut_in_loop :
    let p : Program := ⟨{}, [.repeated .increment {} 3, .loop {} [.repeated .decrement {} 1] {},
      .printChar {}]⟩
    let kind : ForeignName := ⟨"debug.Breakpoint", by decide, by decide⟩
    let q : Program := ⟨{}, [.loop {} [.readChar {}, .foreign kind {}] {}, .absent]⟩
    (∃ chunks e, p.generate ⟨Assembly.target, false⟩ (.counter 5) = .ok (textOf chunks) ∧
      chunks.length = 9 ∧
      (p.generateTo ⟨Assembly.target, false⟩).run ⟨{ room := some 5, complaint := "disk full" },
        .counter 5⟩ = .ok (some "disk full") e ∧
      e.writer.calls = 6 ∧ e.writer.text = textOf (chunks.take 5) ∧ e.labels = .counter 7) ∧
    ∃ e, (q.generateTo ⟨C.target, true⟩).run ⟨{ room := some 1 }, .fresh⟩ =
      .error (.unexpected (.foreign kind {})) e := by
  intro p kind q
  refine ⟨?_, ?_⟩
  · obtain ⟨chunks, htext, hlength, -, hcut⟩ :=
      (p.generateTo_cut ⟨Assembly.target, false⟩ 5).1 (by decide)
    obtain ⟨e, hrun, hcalls, hwritten, hlabels⟩ := hcut 5 "disk full"
    exact ⟨chunks, e, htext, hlength, hrun, hcalls, hwritten, hlabels⟩
  · obtain ⟨s, hfirst, hfault⟩ := (q.generateTo_cut ⟨C.target, true⟩ 0).2 (by decide)
    obtain rfl : .foreign kind {} = s := Option.some.inj hfirst
    exact hfault ⟨{ room := some 1 }, .fresh⟩

end Program

end TapeCompiler
