import TapeCompiler.Proofs.AssemblyText

/-!
# The labels of loops

Programs can be generated one after the other with one counter for their labels
(`Target.generateAll`). The loops of all of them are then numbered in preorder, through
one program after the other, and the number of a loop gives its two labels
(`Assembly.bodyLabel`, `Assembly.conditionLabel`).

  * `Scheme.block_eq_of_loops`: whatever a tree is written down as, the items of a loop
    stand around those of its body, and their number is the place of the loop in
    preorder.
  * `Machine.perm_targets`: the jumps of a tree go to the labels that it defines, one
    jump to each.
  * `Assembly.generateAll_wired`: both together for every text of a sequence, with the
    labels pairwise distinct throughout.
-/

namespace TapeCompiler

/-! ## Loops in preorder -/

namespace Stmt

/-- The loops of a statement list, at any depth, in preorder. -/
def loops (body : List Stmt) : List Stmt :=
  (nodesList body).filter isLoop

theorem loops_leaf {s : Stmt} (hs : s.isLoop = false) (rest : List Stmt) :
    loops (s :: rest) = loops rest := by
  rw [loops, nodesList, nodes_leaf hs, List.filter_append, List.filter_singleton, hs]
  rfl

theorem loops_loop (pos : Pos) (body : List Stmt) (close : Pos) (rest : List Stmt) :
    loops (.loop pos body close :: rest) = .loop pos body close :: (loops body ++ loops rest) := by
  rw [loops, nodesList, nodes, List.filter_append]
  rfl

theorem length_loops (body : List Stmt) : (loops body).length = loopCountList body := by
  induction body using listInduction with
  | nil => rfl
  | leaf s rest hs ih => rw [loops_leaf hs, ih, loopCountList, loopCount_leaf hs, Nat.zero_add]
  | loop pos body close rest ihbody ih =>
    rw [loops_loop, List.length_cons, List.length_append, ihbody, ih, loopCountList, loopCount,
      Nat.add_right_comm]

theorem exists_loops_getElem? {body : List Stmt} {j : Nat} (h : j < (loops body).length) :
    ∃ pos inner close, (loops body)[j]? = some (.loop pos inner close) := by
  have hloop : (loops body)[j].isLoop := (List.mem_filter.1 (List.getElem_mem h)).2
  rw [List.getElem?_eq_getElem h]
  cases hs : (loops body)[j] with
  | loop pos inner close => exact ⟨pos, inner, close, rfl⟩
  | _ =>
    rw [hs] at hloop
    cases hloop

/-- What holds everywhere in a tree holds everywhere in the loops of it. -/
theorem Everywhere.inner {P : Stmt → Prop} {body inner : List Stmt} {pos close : Pos}
    (h : Everywhere P body) (hmem : .loop pos inner close ∈ loops body) : Everywhere P inner := by
  induction body using listInduction with
  | nil => cases hmem
  | leaf s rest hs ih =>
    rw [loops_leaf hs] at hmem
    exact ih h.tail hmem
  | loop pos' body close' rest ihbody ih =>
    obtain ⟨-, hbody, hrest⟩ := (everywhere_loop ..).1 h
    rw [loops_loop, List.mem_cons, List.mem_append] at hmem
    rcases hmem with heq | hmem | hmem
    · cases heq
      exact hbody
    · exact ihbody hbody hmem
    · exact ih hrest hmem

end Stmt

namespace Scheme

variable {α : Type*}

/-- The items of a loop stand around those of its body. The loop with index `j` in
    preorder comes after `2 * j` labels of the tree. -/
theorem block_eq_of_loops (S : Scheme α) {body inner : List Stmt} {j : Nat} {pos close : Pos}
    (h : (Stmt.loops body)[j]? = some (.loop pos inner close)) (n : Nat) :
    ∃ before after, S.block n body =
      before ++ (S.enter (n + 2 * j) ++ S.block (n + 2 * j + 2) inner ++ S.exit (n + 2 * j)) ++
        after := by
  induction body using Stmt.listInduction generalizing n j with
  | nil => cases h
  | leaf s rest hs ih =>
    rw [Stmt.loops_leaf hs] at h
    obtain ⟨before, after, hblock⟩ := ih h n
    refine ⟨S.leaf s ++ before, after, ?_⟩
    rw [block_leaf hs, hblock]
    simp only [List.append_assoc]
  | loop pos' body close' rest ihbody ih =>
    rw [Stmt.loops_loop] at h
    rw [block_loop]
    cases j with
    | zero =>
      cases Option.some.inj h
      exact ⟨[], _, rfl⟩
    | succ j =>
      rw [List.getElem?_cons_succ] at h
      rcases Nat.lt_or_ge j (Stmt.loops body).length with hj | hj
      · -- The loop is one in the body.
        rw [List.getElem?_append_left hj] at h
        obtain ⟨before, after, hblock⟩ := ihbody h (n + 2)
        rw [show n + 2 + 2 * j = n + 2 * (j + 1) by omega] at hblock
        refine ⟨S.enter n ++ before,
          after ++ S.exit n ++ S.block (n + 2 + 2 * Stmt.loopCountList body) rest, ?_⟩
        rw [hblock]
        simp only [List.append_assoc]
      · -- The loop comes after all of the body.
        rw [List.getElem?_append_right hj] at h
        obtain ⟨before, after, hblock⟩ := ih h (n + 2 + 2 * Stmt.loopCountList body)
        rw [Stmt.length_loops] at hj hblock
        rw [show n + 2 + 2 * Stmt.loopCountList body + 2 * (j - Stmt.loopCountList body) =
          n + 2 * (j + 1) by omega] at hblock
        refine ⟨S.enter n ++ S.block (n + 2) body ++ S.exit n ++ before, after, ?_⟩
        rw [hblock]
        simp only [List.append_assoc]

end Scheme

/-! ## Jumps and the labels they go to -/

namespace Machine

/-- The label that a line jumps to. -/
def Line.target? : Line → Option String
  | instruction (.jmp symbol) | instruction (.jne symbol) => some symbol
  | _ => none

/-- The labels that are jumped to, in the order of the jumps. -/
def targets (code : List Line) : List String :=
  code.filterMap Line.target?

variable {o : LoweringOptions}

theorem symbols_leaf {s : Stmt} : symbols ((Scheme.lines o).leaf s) = [] := by
  cases s <;> simp [symbols, Scheme.lines, Line.symbol?]

theorem targets_leaf {s : Stmt} : targets ((Scheme.lines o).leaf s) = [] := by
  cases s with
  | repeated step pos count => cases step <;> simp [targets, Scheme.lines, Line.target?, Instruction.counted]
  | _ => rfl

theorem symbols_append (xs ys : List Line) : symbols (xs ++ ys) = symbols xs ++ symbols ys :=
  List.filterMap_append

theorem targets_append (xs ys : List Line) : targets (xs ++ ys) = targets xs ++ targets ys :=
  List.filterMap_append

/-- The symbols of a loop: its two labels, and those of its body between them. -/
theorem symbols_loop (n : Nat) (pos : Pos) (body : List Stmt) (close : Pos) (rest : List Stmt) :
    symbols ((Scheme.lines o).block n (.loop pos body close :: rest)) =
      LoopLabels.bodySymbol n :: (symbols ((Scheme.lines o).block (n + 2) body) ++
        LoopLabels.conditionSymbol n ::
          symbols ((Scheme.lines o).block (n + 2 + 2 * Stmt.loopCountList body) rest)) := by
  simp only [Scheme.block_loop, symbols_append, List.append_assoc]
  rfl

/-- A loop jumps to its test first and to its body last. -/
theorem targets_loop (n : Nat) (pos : Pos) (body : List Stmt) (close : Pos) (rest : List Stmt) :
    targets ((Scheme.lines o).block n (.loop pos body close :: rest)) =
      LoopLabels.conditionSymbol n :: (targets ((Scheme.lines o).block (n + 2) body) ++
        LoopLabels.bodySymbol n ::
          targets ((Scheme.lines o).block (n + 2 + 2 * Stmt.loopCountList body) rest)) := by
  simp only [Scheme.block_loop, targets_append, List.append_assoc]
  rfl

/-- The jumps of a tree go to the labels that it defines, one jump to each. -/
theorem perm_targets (n : Nat) (body : List Stmt) :
    (targets ((Scheme.lines o).block n body)).Perm (symbols ((Scheme.lines o).block n body)) := by
  induction body using Stmt.listInduction generalizing n with
  | nil => exact .refl _
  | leaf s rest hs ih =>
    rw [Scheme.block_leaf hs, targets_append, symbols_append, targets_leaf, symbols_leaf]
    exact ih n
  | loop pos body close rest ihbody ih =>
    rw [targets_loop, symbols_loop]
    -- The two labels of the loop change places around its body.
    calc
      _ = [LoopLabels.conditionSymbol n] ++ (targets ((Scheme.lines o).block (n + 2) body) ++
            ([LoopLabels.bodySymbol n] ++ targets ((Scheme.lines o).block _ rest))) := rfl
      List.Perm _ ([LoopLabels.conditionSymbol n] ++ (symbols ((Scheme.lines o).block (n + 2) body) ++
            ([LoopLabels.bodySymbol n] ++ symbols ((Scheme.lines o).block _ rest)))) :=
        ((ihbody _).append ((ih _).append_left _)).append_left _
      List.Perm _ ([LoopLabels.bodySymbol n] ++ (symbols ((Scheme.lines o).block (n + 2) body) ++
            ([LoopLabels.conditionSymbol n] ++ symbols ((Scheme.lines o).block _ rest)))) := by
        grind

/-- The labels of loop bodies are defined in the order of the loops. -/
theorem bodySymbols_sublist (n : Nat) (body : List Stmt) :
    ((List.range' n (Stmt.loopCountList body) 2).map LoopLabels.bodySymbol).Sublist
      (symbols ((Scheme.lines o).block n body)) := by
  induction body using Stmt.listInduction generalizing n with
  | nil => exact .refl _
  | leaf s rest hs ih =>
    rw [Scheme.block_leaf hs, symbols_append, symbols_leaf, Stmt.loopCountList,
      Stmt.loopCount_leaf hs, Nat.zero_add]
    exact ih n
  | loop pos body close rest ihbody ih =>
    have hrange : List.range' n (Stmt.loopCountList (.loop pos body close :: rest)) 2 =
        n :: (List.range' (n + 2) (Stmt.loopCountList body) 2 ++
          List.range' (n + 2 + 2 * Stmt.loopCountList body) (Stmt.loopCountList rest) 2) := by
      rw [List.range'_append, Stmt.loopCountList, Stmt.loopCount, Nat.add_right_comm,
        List.range'_succ]
    rw [symbols_loop, hrange, List.map_cons, List.map_append]
    exact ((ihbody _).append ((ih _).cons _)).cons_cons _

/-- Both labels of every loop are among the symbols of its tree. -/
theorem symbols_mem_of_loops {body inner : List Stmt} {j : Nat} {pos close : Pos}
    (h : (Stmt.loops body)[j]? = some (.loop pos inner close)) (n : Nat) :
    LoopLabels.bodySymbol (n + 2 * j) ∈ symbols ((Scheme.lines o).block n body) ∧
      LoopLabels.conditionSymbol (n + 2 * j) ∈ symbols ((Scheme.lines o).block n body) := by
  obtain ⟨before, after, hblock⟩ := (Scheme.lines o).block_eq_of_loops h n
  have henter : symbols ((Scheme.lines o).enter (n + 2 * j)) = [LoopLabels.bodySymbol (n + 2 * j)] := rfl
  have hexit : symbols ((Scheme.lines o).exit (n + 2 * j)) = [LoopLabels.conditionSymbol (n + 2 * j)] :=
    rfl
  simp only [hblock, symbols_append, henter, hexit, List.mem_append, List.mem_singleton, true_or,
    or_true, and_self]

variable {body : List Stmt}

theorem symbols_block_sublist (n : Nat) (body : List Stmt) :
    (symbols ((Scheme.lines o).block n body)).Sublist (symbols (codeAfter n o body)) := by
  rw [symbols_codeAfter]
  exact (List.sublist_cons_self ..).trans (List.sublist_append_left ..)

/-- Only the tree has jumps. -/
theorem targets_codeAfter (n : Nat) :
    targets (codeAfter n o body) = targets ((Scheme.lines o).block n body) := by
  rw [codeAfter, targets_append, targets_append]
  exact List.append_nil _

/-- A label of the tree is defined by one line and is where one jump goes. -/
theorem count_of_mem_symbols (hknown : Stmt.Everywhere (·.isKnown) body) {n : Nat} {symbol : String}
    (h : symbol ∈ symbols ((Scheme.lines o).block n body)) :
    (symbols (codeAfter n o body)).count symbol = 1 ∧
      (targets (codeAfter n o body)).count symbol = 1 := by
  have hnodup := nodup_symbols_after (o := o) hknown n
  have hsub := symbols_block_sublist (o := o) n body
  rw [targets_codeAfter, (perm_targets n body).count_eq]
  exact ⟨List.count_eq_one_of_mem hnodup (hsub.mem h),
    List.count_eq_one_of_mem (hnodup.sublist hsub) h⟩

end Machine

/-! ## Programs that share a counter -/

/-- The loops of programs, one program after the other, in preorder. -/
def Program.loopsOf (programs : List (Program × Bool)) : List Stmt :=
  programs.flatMap fun p => Stmt.loops p.1.body

namespace Target

/-- The texts of programs that are generated one after the other with the same labels,
    and the labels left over. Each program comes with whether it is optimised. -/
def generateAll (t : Target) (labels : LabelSource) :
    List (Program × Bool) → Except LoweringFault (List String × LabelSource)
  | [] => .ok ([], labels)
  | (p, optimized) :: rest =>
    match p.lower { target := t, optimized } labels with
    | .error e => .error e
    | .ok (chunks, labels) =>
      match t.generateAll labels rest with
      | .error e => .error e
      | .ok (texts, labels) => .ok (Program.textOf chunks :: texts, labels)

/-- The texts of programs, the first of them after `n` labels. -/
def textsAfter (t : Target) (n : Nat) : List (Program × Bool) → List String
  | [] => []
  | (p, optimized) :: rest =>
    Program.textOf (p.chunksAfter n { target := t, optimized }) ::
      t.textsAfter (n + 2 * Stmt.loopCountList p.body) rest

variable {t : Target}

/-- The counter goes on from one program to the next. -/
theorem generateAll_counter {programs : List (Program × Bool)}
    (hknown : ∀ p ∈ programs, Stmt.Everywhere (·.isKnown) p.1.body) (n : Nat) :
    t.generateAll (.counter n) programs =
      .ok (t.textsAfter n programs, .counter (n + 2 * (Program.loopsOf programs).length)) := by
  induction programs generalizing n with
  | nil => rfl
  | cons p rest ih =>
    obtain ⟨hp, hrest⟩ := List.forall_mem_cons.1 hknown
    have hcount : n + 2 * Stmt.loopCountList p.1.body + 2 * (Program.loopsOf rest).length =
        n + 2 * (Program.loopsOf (p :: rest)).length := by
      rw [Program.loopsOf, Program.loopsOf, List.flatMap_cons, List.length_append, Stmt.length_loops]
      omega
    rw [generateAll, Program.lower_counter hp]
    simp only
    rw [ih hrest, hcount]
    rfl

/-- The text of a program that comes after others. -/
theorem textsAfter_getElem? (n : Nat) (earlier later : List (Program × Bool)) (p : Program)
    (optimized : Bool) :
    (t.textsAfter n (earlier ++ (p, optimized) :: later))[earlier.length]? =
      some (Program.textOf
        (p.chunksAfter (n + 2 * (Program.loopsOf earlier).length) { target := t, optimized })) := by
  induction earlier generalizing n with
  | nil => rfl
  | cons q earlier ih =>
    rw [List.cons_append, textsAfter, List.length_cons, List.getElem?_cons_succ, ih, Program.loopsOf,
      Program.loopsOf, List.flatMap_cons, List.length_append, Stmt.length_loops, Nat.mul_add,
      Nat.add_assoc]

theorem length_textsAfter (n : Nat) (programs : List (Program × Bool)) :
    (t.textsAfter n programs).length = programs.length := by
  induction programs generalizing n with
  | nil => rfl
  | cons p rest ih => rw [textsAfter, List.length_cons, List.length_cons, ih]

end Target

namespace Assembly

/-- The label at the start of the body of the loop with number `i`. -/
def bodyLabel (i : Nat) : String :=
  s!"loop_body_{2 * i}"

/-- The label at the test of the loop with number `i`. -/
def conditionLabel (i : Nat) : String :=
  s!"loop_condition_{2 * i + 1}"

/-- The labels of the first `count` loops. -/
def loopLabels (count : Nat) : List String :=
  (List.range count).flatMap fun i => [bodyLabel i, conditionLabel i]

theorem dot_bodyLabel (i : Nat) : "." ++ bodyLabel i = LoopLabels.bodySymbol (2 * i) := by
  rw [LoopLabels.bodySymbol_eq, bodyLabel, ← String.append_assoc]
  rfl

theorem dot_conditionLabel (i : Nat) : "." ++ conditionLabel i = LoopLabels.conditionSymbol (2 * i) := by
  rw [LoopLabels.conditionSymbol_eq, conditionLabel, ← String.append_assoc]
  rfl

/-- Every label carries a number of its own. -/
theorem nodup_loopLabels (count : Nat) : (loopLabels count).Nodup := by
  have hbody : ∀ i, Machine.number? ("." ++ bodyLabel i) = some (2 * i) := fun i => by
    rw [dot_bodyLabel, Machine.number?_bodySymbol]
  have hcondition : ∀ i, Machine.number? ("." ++ conditionLabel i) = some (2 * i + 1) := fun i => by
    rw [dot_conditionLabel, Machine.number?_conditionSymbol]
  rw [loopLabels, List.nodup_flatMap]
  refine ⟨fun i _ => ?_, List.Pairwise.imp ?_ List.nodup_range⟩
  · grind
  · intro i j hij l hi hj
    grind

/-- In the text, the loop with number `i` is its two labels, with exactly the text of
    its body between them, a jump to the test before and a jump to the body behind. -/
def Encloses (optimized : Bool) (i : Nat) (inner : List Stmt) (text : String) : Prop :=
  ∃ before after chunks labels,
    Stmt.lowerList { target, optimized } ⟨[], .counter (2 * i + 2)⟩ inner = .ok ⟨chunks, labels⟩ ∧
    text = before ++
      s!"        jmp     .{conditionLabel i}\n.{bodyLabel i}:\n" ++
      Program.textOf chunks.reverse ++
      s!".{conditionLabel i}:\n        cmpb    $0, (%rbx)\n        jne     .{bodyLabel i}\n" ++
      after

theorem inst_dot (op symbol : String) : inst op ("." ++ symbol) =
    "        " ++ op ++ String.ofList (List.replicate (7 - op.length) ' ') ++ " ." ++ symbol := by
  have hne : "." ++ symbol ≠ "" := fun h => by
    have hlist := congrArg String.toList h
    rw [String.toList_append] at hlist
    cases hlist
  have hdot : " " ++ ("." ++ symbol) = " ." ++ symbol := by
    rw [← String.append_assoc]
    rfl
  rw [inst, if_neg hne]
  simp only
  rw [String.append_assoc, hdot, ← String.append_assoc]

theorem textOf_loopEnter (l : LoopLabels) : Program.textOf [target.loopEnter l] =
    s!"        jmp     .{l.condition}\n.{l.body}:\n" := by
  rw [← String.toList_inj, Program.toList_textOf (by simp [target])]
  simp only [target, inst_dot, Chunk.chars, List.flatten_singleton, List.flatMap_cons, List.flatMap_nil,
    String.toList_append, List.append_assoc]
  rfl

theorem textOf_loopExit (l : LoopLabels) : Program.textOf [target.loopExit l] =
    s!".{l.condition}:\n        cmpb    $0, (%rbx)\n        jne     .{l.body}\n" := by
  rw [← String.toList_inj, Program.toList_textOf (by simp [target])]
  simp only [target, inst_dot, Chunk.chars, List.flatten_singleton, List.flatMap_cons, List.flatMap_nil,
    String.toList_append, List.append_assoc]
  rfl

theorem numbered_eq (i : Nat) : LoopLabels.numbered (2 * i) = ⟨bodyLabel i, conditionLabel i⟩ := rfl

/-- The text of a tree around one of its loops. -/
theorem encloses_of_loops {body inner : List Stmt} (hknown : Stmt.Everywhere (·.isKnown) body)
    {j : Nat} {pos close : Pos} (h : (Stmt.loops body)[j]? = some (.loop pos inner close))
    (first : Nat) (optimized : Bool) (before after : List Chunk) :
    Encloses optimized (first + j) inner (Program.textOf
      (before ++ (Scheme.chunks { target, optimized }).block (2 * first) body ++ after)) := by
  have hinner : Stmt.Everywhere (·.isKnown) inner := hknown.inner (List.mem_of_getElem? h)
  obtain ⟨front, back, hblock⟩ :=
    (Scheme.chunks { target, optimized }).block_eq_of_loops h (2 * first)
  rw [← Nat.mul_add] at hblock
  refine ⟨Program.textOf (before ++ front), Program.textOf (back ++ after), _, _,
    Stmt.lowerList_counter hinner [] _, ?_⟩
  rw [hblock, List.append_nil, List.reverse_reverse]
  have henter := textOf_loopEnter (.numbered (2 * (first + j)))
  have hexit := textOf_loopExit (.numbered (2 * (first + j)))
  rw [numbered_eq] at henter hexit
  rw [← henter, ← hexit]
  simp only [Program.textOf_append, String.append_assoc, Scheme.enter_chunks, Scheme.exit_chunks, numbered_eq]

/-- How the loops of a program are labelled in its text, if `first` loops come before
    it. -/
structure Wired (first : Nat) (body : List Stmt) (optimized : Bool) (text : String) : Prop where
  /-- The labels of a loop stand around the text of its body. -/
  encloses : ∀ (j : Nat) (pos : Pos) (inner : List Stmt) (close : Pos),
    (Stmt.loops body)[j]? = some (.loop pos inner close) → Encloses optimized (first + j) inner text
  /-- Line by line, the labels of the loops are defined once and jumped to once, in the
      order of the loops, and all jumps go to labels of the text. -/
  lines : ∃ code, Machine.read text = some code ∧
    ((List.range (Stmt.loops body).length).map fun j => "." ++ bodyLabel (first + j)).Sublist
      (Machine.symbols code) ∧
    (∀ j < (Stmt.loops body).length, ∀ l ∈ [bodyLabel (first + j), conditionLabel (first + j)],
      (Machine.symbols code).count ("." ++ l) = 1 ∧ (Machine.targets code).count ("." ++ l) = 1) ∧
    ∀ symbol ∈ Machine.targets code, symbol ∈ Machine.symbols code

/-- The text of a program after `2 * first` labels. -/
theorem wired_chunksAfter {p : Program} (hknown : Stmt.Everywhere (·.isKnown) p.body) (first : Nat)
    (optimized : Bool) : Wired first p.body optimized
      (Program.textOf (p.chunksAfter (2 * first) { target, optimized })) where
  encloses := fun j pos inner close h =>
    encloses_of_loops hknown h first optimized [target.prologue] [target.epilogue]
  lines := by
    refine ⟨_, Machine.read_text_after optimized hknown (2 * first), ?_, ?_, ?_⟩
    · have hbodies : (List.range (Stmt.loops p.body).length).map (fun j => "." ++ bodyLabel (first + j)) =
          (List.range' (2 * first) (Stmt.loopCountList p.body) 2).map LoopLabels.bodySymbol := by
        refine List.ext_getElem (by simp [Stmt.length_loops]) fun j _ _ => ?_
        simp only [List.getElem_map, List.getElem_range, List.getElem_range', dot_bodyLabel, Nat.mul_add]
      rw [hbodies]
      exact (Machine.bodySymbols_sublist (2 * first) p.body).trans (Machine.symbols_block_sublist _ _)
    · intro j hj l hl
      obtain ⟨pos, inner, close, hloop⟩ := Stmt.exists_loops_getElem? hj
      obtain ⟨hbody, hcondition⟩ := Machine.symbols_mem_of_loops hloop (2 * first)
      rw [← Nat.mul_add, ← dot_bodyLabel] at hbody
      rw [← Nat.mul_add, ← dot_conditionLabel] at hcondition
      rcases List.mem_pair.1 hl with rfl | rfl
      · exact Machine.count_of_mem_symbols hknown hbody
      · exact Machine.count_of_mem_symbols hknown hcondition
    · intro symbol hsymbol
      rw [Machine.targets_codeAfter] at hsymbol
      exact (Machine.symbols_block_sublist _ _).mem ((Machine.perm_targets _ _).mem_iff.1 hsymbol)

/-- However many programs are generated with one counter, and however they are
    optimised, the loops of all of them are numbered in preorder, and each gets the two
    labels of its number. All labels differ, and in every text each label of a loop is
    defined by one line and is where one jump goes, no jump goes to any other label,
    and between the labels of a loop stands the text of its body. -/
theorem generateAll_wired (programs : List (Program × Bool))
    (hknown : ∀ p ∈ programs, Stmt.Everywhere (·.isKnown) p.1.body) :
    ∃ texts labels, target.generateAll .fresh programs = .ok (texts, labels) ∧
      labels.issued = 2 * (Program.loopsOf programs).length ∧
      (loopLabels (Program.loopsOf programs).length).Nodup ∧
      texts.length = programs.length ∧
      ∀ (earlier later : List (Program × Bool)) (p : Program) (optimized : Bool),
        programs = earlier ++ (p, optimized) :: later →
        ∃ text, texts[earlier.length]? = some text ∧
          Wired (Program.loopsOf earlier).length p.body optimized text := by
  refine ⟨_, _, Target.generateAll_counter hknown 0, Nat.zero_add _, nodup_loopLabels _,
    Target.length_textsAfter 0 programs, ?_⟩
  rintro earlier later p optimized rfl
  have hp : Stmt.Everywhere (·.isKnown) p.body :=
    hknown (p, optimized) (List.mem_append_right _ List.mem_cons_self)
  refine ⟨_, Target.textsAfter_getElem? 0 earlier later p optimized, ?_⟩
  rw [Nat.zero_add]
  exact wired_chunksAfter hp _ optimized

/-- Two loops inside each other, optimised, and then two side by side, not optimised:
    the latter have the numbers two and three. -/
theorem generateAll_wired_siblings :
    let nested : Program := ⟨{}, [.loop {} [.loop {} [.repeated .decrement {} 300] {}] {}]⟩
    let siblings : Program := ⟨{}, [.loop {} [] {}, .printChar {}, .loop {} [.readChar {}] {}]⟩
    (∀ p ∈ [(nested, true), (siblings, false)], Stmt.Everywhere (·.isKnown) p.1.body) ∧
      ∃ texts labels,
        target.generateAll .fresh [(nested, true), (siblings, false)] = .ok (texts, labels) ∧
        labels.issued = 8 ∧ ∃ text, texts[1]? = some text ∧ Wired 2 siblings.body false text := by
  intro nested siblings
  have hknown : ∀ p ∈ [(nested, true), (siblings, false)], Stmt.Everywhere (·.isKnown) p.1.body := by
    decide
  obtain ⟨texts, labels, htexts, hissued, -, -, hwired⟩ := generateAll_wired _ hknown
  exact ⟨hknown, texts, labels, htexts, hissued, hwired [(nested, true)] [] siblings false rfl⟩

end Assembly

end TapeCompiler
