import TapeCompiler.Proofs.Scheme
import TapeCompiler.Target.Lowering

/-!
# The lines of generated text

With a counter for labels, lowering writes a tree down by a scheme: a counted leaf is
some copies of a chunk (`LoweringOptions.copies`), and the two chunks of a loop carry
the two labels that the counter hands out next (`LoopLabels.numbered`). The text is
then the lines of these chunks, between the prologue and the epilogue
(`Program.generate_counter`), each with a line feed after it (`Program.toList_textOf`).
A tree that holds an unknown statement has no text, and the first of them is to blame
(`Stmt.lowerList_fault`).
-/

namespace TapeCompiler

/-- How often the chunk of a leaf is written. -/
def LoweringOptions.copies (o : LoweringOptions) (count : Nat) : Nat :=
  if o.optimized then 1 else count

/-- How many steps each copy of a chunk stands for. -/
def LoweringOptions.each (o : LoweringOptions) (count : Nat) : Nat :=
  if o.optimized then count else 1

/-- There is at least one copy, and together the copies stand for all steps. -/
theorem LoweringOptions.copies_eq_succ (o : LoweringOptions) {count : Nat} (h : 1 ≤ count) :
    ∃ n, o.copies count = n + 1 ∧ (n + 1) * o.each count = count := by
  unfold copies each
  split
  · exact ⟨0, rfl, Nat.one_mul count⟩
  · obtain ⟨n, rfl⟩ := Nat.exists_eq_add_of_le' h
    exact ⟨n, rfl, Nat.mul_one _⟩

/-- The labels of a loop, after `n` labels. -/
def LoopLabels.numbered (n : Nat) : LoopLabels where
  body := s!"{Layout.bodyHint}_{n}"
  condition := s!"{Layout.conditionHint}_{n + 1}"

theorem LabelSource.loop_counter (n : Nat) :
    (counter n).loop = (.numbered n, counter (n + 2)) := rfl

namespace Scheme

/-- A tree written down as the chunks of a target. -/
def chunks (o : LoweringOptions) : Scheme Chunk where
  leaf
    | .repeated step _ count => List.replicate (o.copies count) (o.target.step step (o.each count))
    | .printChar _ => [o.target.printChar]
    | .readChar _ => [o.target.readChar]
    | .loop .. | .foreign .. | .absent => []
  enter n := [o.target.loopEnter (.numbered n)]
  exit n := [o.target.loopExit (.numbered n)]

@[simp] theorem enter_chunks (o : LoweringOptions) (n : Nat) :
    (chunks o).enter n = [o.target.loopEnter (.numbered n)] := rfl

@[simp] theorem exit_chunks (o : LoweringOptions) (n : Nat) :
    (chunks o).exit n = [o.target.loopExit (.numbered n)] := rfl

variable {α β γ : Type*}

/-- A relation between lists that goes through appending holds for the blocks of two
    schemes if it holds for their leaves and for the two ends of a loop. -/
theorem block_rel {R : List α → List β → Prop} (hnil : R [] [])
    (happend : ∀ {as cs : List α} {bs ds : List β}, R as bs → R cs ds → R (as ++ cs) (bs ++ ds))
    {S : Scheme α} {T : Scheme β}
    (hleaf : ∀ s : Stmt, s.isLoop = false → s.isKnown → R (S.leaf s) (T.leaf s))
    (henter : ∀ n, R (S.enter n) (T.enter n)) (hexit : ∀ n, R (S.exit n) (T.exit n))
    {body : List Stmt} (hknown : Stmt.Everywhere (·.isKnown) body) (n : Nat) :
    R (S.block n body) (T.block n body) := by
  induction body using Stmt.listInduction generalizing n with
  | nil => exact hnil
  | leaf s rest hs ih =>
    rw [block_leaf hs, block_leaf hs]
    exact happend (hleaf s hs hknown.head) (ih hknown.tail n)
  | loop pos body close rest ihbody ih =>
    obtain ⟨-, hbody, hrest⟩ := (Stmt.everywhere_loop ..).1 hknown
    rw [block_loop, block_loop]
    exact happend (happend (happend (henter n) (ihbody hbody _)) (hexit n)) (ih hrest _)

/-- Two schemes whose items stand for the same things write down the same. -/
theorem flatMap_block {f : α → List γ} {g : β → List γ} {S : Scheme α} {T : Scheme β}
    (hleaf : ∀ s : Stmt, s.isLoop = false → s.isKnown → (S.leaf s).flatMap f = (T.leaf s).flatMap g)
    (henter : ∀ n, (S.enter n).flatMap f = (T.enter n).flatMap g)
    (hexit : ∀ n, (S.exit n).flatMap f = (T.exit n).flatMap g)
    {body : List Stmt} (hknown : Stmt.Everywhere (·.isKnown) body) (n : Nat) :
    (S.block n body).flatMap f = (T.block n body).flatMap g := by
  refine block_rel (R := fun xs ys => xs.flatMap f = ys.flatMap g) rfl ?_ hleaf henter hexit hknown n
  intro as cs bs ds hab hcd
  rw [List.flatMap_append, List.flatMap_append, hab, hcd]

end Scheme

theorem Lowering.emitMany_succ (l : Lowering) (n : Nat) (c : Chunk) :
    (l.emit c).emitMany n c = l.emitMany (n + 1) c := by
  simp only [emit, emitMany, List.replicate_succ', List.append_assoc, List.singleton_append]

/-! ## Lowering with a counter -/

namespace Stmt

variable {o : LoweringOptions}

theorem lower_leaf {s : Stmt} (hs : s.isLoop = false) (hk : s.isKnown) (chunks : List Chunk)
    (labels : LabelSource) :
    s.lower o ⟨chunks, labels⟩ = .ok ⟨((Scheme.chunks o).leaf s).reverse ++ chunks, labels⟩ := by
  cases s with
  | repeated step pos count =>
    rw [lower, Lowering.step, Scheme.chunks]
    simp only [LoweringOptions.copies, LoweringOptions.each, List.reverse_replicate]
    split <;> rfl
  | printChar | readChar => rfl
  | loop => cases hs
  | foreign | absent => cases hk

/-- Lowering puts the chunks of the scheme, last first, before what was there. -/
theorem lowerList_counter {body : List Stmt} (hknown : Everywhere (·.isKnown) body)
    (chunks : List Chunk) (n : Nat) :
    lowerList o ⟨chunks, .counter n⟩ body =
      .ok ⟨((Scheme.chunks o).block n body).reverse ++ chunks,
        .counter (n + 2 * loopCountList body)⟩ := by
  induction body using listInduction generalizing chunks n with
  | nil => rfl
  | leaf s rest hs ih =>
    rw [lowerList, lower_leaf hs hknown.head, Scheme.block_leaf hs]
    simp only
    rw [ih hknown.tail, loopCountList, loopCount_leaf hs, Nat.zero_add, List.reverse_append,
      List.append_assoc]
  | loop pos body close rest ihbody ih =>
    obtain ⟨-, hbody, hrest⟩ := (everywhere_loop ..).1 hknown
    have hcount : n + 2 + 2 * loopCountList body + 2 * loopCountList rest =
        n + 2 * loopCountList (.loop pos body close :: rest) := by
      rw [loopCountList, loopCount]
      omega
    rw [lowerList, lower, LabelSource.loop_counter]
    simp only [Lowering.emit]
    rw [ihbody hbody]
    simp only
    rw [ih hrest, hcount, Scheme.block_loop]
    simp

/-- Known statements can be lowered, wherever their labels come from. -/
theorem exists_lowerList {body : List Stmt} (hknown : Everywhere (·.isKnown) body)
    (o : LoweringOptions) (l : Lowering) : ∃ l', lowerList o l body = .ok l' := by
  induction body using listInduction generalizing l with
  | nil => exact ⟨l, rfl⟩
  | leaf s rest hs ih =>
    rw [lowerList, lower_leaf hs hknown.head]
    exact ih hknown.tail _
  | loop pos body close rest ihbody ih =>
    obtain ⟨-, hbody, hrest⟩ := (everywhere_loop ..).1 hknown
    obtain ⟨l', hl'⟩ := ihbody hbody { l.emit (o.target.loopEnter l.labels.loop.1) with
      labels := l.labels.loop.2 }
    rw [lowerList, lower]
    simp only [hl']
    exact ih hrest _

theorem everywhere_isKnown {body : List Stmt} (h : (nodesList body).find? (!·.isKnown) = none) :
    Everywhere (·.isKnown) body :=
  fun s hs => by simpa using List.find?_eq_none.1 h s hs

/-- The first statement in preorder that is not known is the fault. -/
theorem lowerList_fault {body : List Stmt} {s : Stmt}
    (h : (nodesList body).find? (!·.isKnown) = some s) (l : Lowering) :
    lowerList o l body = .error (.unexpected s) := by
  induction body using listInduction generalizing l with
  | nil => cases h
  | leaf t rest ht ih =>
    rw [nodesList, nodes_leaf ht, List.singleton_append] at h
    cases hk : t.isKnown with
    | true =>
      rw [List.find?_cons_of_neg (by simp [hk])] at h
      rw [lowerList, lower_leaf ht hk]
      exact ih h _
    | false =>
      rw [List.find?_cons_of_pos (by simp [hk])] at h
      obtain rfl : t = s := Option.some.inj h
      cases t with
      | foreign | absent => rfl
      | _ => cases hk
  | loop pos body close rest ihbody ih =>
    rw [nodesList, nodes, List.cons_append, List.find?_cons_of_neg (by simp [isKnown]),
      List.find?_append] at h
    rw [lowerList, lower]
    cases hbody : (nodesList body).find? (!·.isKnown) with
    | some t =>
      rw [hbody] at h
      obtain rfl : t = s := Option.some.inj h
      simp only [ihbody hbody]
    | none =>
      rw [hbody] at h
      obtain ⟨l', hl'⟩ := exists_lowerList (everywhere_isKnown hbody) o
        { l.emit (o.target.loopEnter l.labels.loop.1) with labels := l.labels.loop.2 }
      simp only [hl']
      exact ih h _

end Stmt

namespace Program

/-- The chunks of a program, after `n` labels. -/
def chunksAfter (n : Nat) (p : Program) (o : LoweringOptions) : List Chunk :=
  o.target.prologue :: (Scheme.chunks o).block n p.body ++ [o.target.epilogue]

/-- The chunks of a program. -/
def chunks (p : Program) (o : LoweringOptions) : List Chunk :=
  p.chunksAfter 0 o

/-- Lowering with a counter takes two labels for each loop. -/
theorem lower_counter {p : Program} (hknown : Stmt.Everywhere (·.isKnown) p.body)
    (o : LoweringOptions) (n : Nat) :
    p.lower o (.counter n) =
      .ok (p.chunksAfter n o, .counter (n + 2 * Stmt.loopCountList p.body)) := by
  rw [lower, Stmt.lowerList_counter hknown]
  simp [Lowering.emit, chunksAfter]

/-- Every tree of known statements has a text. -/
theorem generate_counter {p : Program} (hknown : Stmt.Everywhere (·.isKnown) p.body)
    (o : LoweringOptions) (n : Nat) :
    p.generate o (.counter n) = .ok (textOf (p.chunksAfter n o)) := by
  rw [generate, lower_counter hknown]
  rfl

theorem generate_eq {p : Program} (hknown : Stmt.Everywhere (·.isKnown) p.body)
    (o : LoweringOptions) : p.generate o = .ok (textOf (p.chunks o)) :=
  generate_counter hknown o 0

theorem exists_generate {p : Program} (hknown : Stmt.Everywhere (·.isKnown) p.body)
    (o : LoweringOptions) (labels : LabelSource) : ∃ text, p.generate o labels = .ok text := by
  obtain ⟨l, hl⟩ := Stmt.exists_lowerList hknown o ⟨[o.target.prologue], labels⟩
  rw [generate, lower, hl]
  exact ⟨_, rfl⟩

/-- What holds for every chunk of a target holds for the chunks of a program. -/
theorem forall_mem_chunks {P : Chunk → Prop} {o : LoweringOptions} (hprologue : P o.target.prologue)
    (hepilogue : P o.target.epilogue) (hstep : ∀ (k : Nat) (s : Step), P (o.target.step s k))
    (hprint : P o.target.printChar) (hread : P o.target.readChar)
    (henter : ∀ n, P (o.target.loopEnter (.numbered n)))
    (hexit : ∀ n, P (o.target.loopExit (.numbered n))) {p : Program}
    (hknown : Stmt.Everywhere (·.isKnown) p.body) (n : Nat) : ∀ c ∈ p.chunksAfter n o, P c := by
  rw [chunksAfter, List.cons_append, List.forall_mem_cons, List.forall_mem_append,
    List.forall_mem_singleton]
  refine ⟨hprologue, Scheme.forall_mem_block ?_ ?_ ?_ hknown n, hepilogue⟩
  · intro s hs hk c hc
    cases s with
    | repeated step pos count =>
      rw [List.eq_of_mem_replicate hc]
      exact hstep _ step
    | printChar => exact List.mem_singleton.1 hc ▸ hprint
    | readChar => exact List.mem_singleton.1 hc ▸ hread
    | loop => cases hs
    | foreign | absent => cases hk
  · intro n c hc
    exact List.mem_singleton.1 hc ▸ henter n
  · intro n c hc
    exact List.mem_singleton.1 hc ▸ hexit n

end Program

/-! ## Lines -/

/-- The characters of some lines, each with a line feed after it. -/
def Chunk.chars (c : Chunk) : List Char :=
  c.flatMap fun line => line.toList ++ ['\n']

theorem Chunk.chars_append (c d : Chunk) : Chunk.chars (c ++ d) = c.chars ++ d.chars :=
  List.flatMap_append

theorem Chunk.toList_text {c : Chunk} (hc : c ≠ []) : c.text.toList ++ ['\n'] = c.chars := by
  rw [text, String.toList_intercalate, chars]
  induction c with
  | nil => exact absurd rfl hc
  | cons line c ih =>
    cases c with
    | nil => simp
    | cons line' c =>
      rw [List.map_cons, List.intercalate_cons_of_ne_nil (by simp), List.append_assoc,
        ih (by simp), List.flatMap_cons]
      rfl

theorem Program.textOf_append (xs ys : List Chunk) : textOf (xs ++ ys) = textOf xs ++ textOf ys := by
  rw [textOf, List.map_append, String.join_append]
  rfl

/-- The text of chunks is their lines, each with a line feed after it. -/
theorem Program.toList_textOf {chunks : List Chunk} (h : ∀ c ∈ chunks, c ≠ []) :
    (textOf chunks).toList = Chunk.chars chunks.flatten := by
  rw [textOf, String.toList_join, List.flatMap_map]
  induction chunks with
  | nil => rfl
  | cons c chunks ih =>
    obtain ⟨hc, hchunks⟩ := List.forall_mem_cons.1 h
    rw [List.flatMap_cons, List.flatten_cons, Chunk.chars_append, ih hchunks, ← Chunk.toList_text hc,
      String.toList_append]
    rfl

end TapeCompiler
