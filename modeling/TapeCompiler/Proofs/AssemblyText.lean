import TapeCompiler.Proofs.Lowering
import TapeCompiler.Proofs.Machine
import TapeCompiler.Target.Assembly

/-!
# Reading generated assembly

The machine reads every line of generated text as what it was meant to be
(`Machine.read_text`): the code of a program is its prologue, the lines of the tree
(`Scheme.lines`) and its epilogue. No symbol is defined twice, because the counter
gives every label another number (`Scheme.nodup_numbers`), and the symbols of loops
are the only ones that carry a number.
-/

namespace TapeCompiler

open Machine (Line kind)

/-! ## The lines of a tree -/

/-- The instruction for a step that is done `k` times. -/
def Machine.Instruction.counted (k : Nat) : Step → Instruction
  | .moveRight => .addq k
  | .moveLeft => .subq k
  | .increment => .addb (k % 256)
  | .decrement => .subb (k % 256)

/-- The symbol at the start of a loop body. -/
def LoopLabels.bodySymbol (n : Nat) : String :=
  "." ++ (numbered n).body

/-- The symbol at the test of a loop. -/
def LoopLabels.conditionSymbol (n : Nat) : String :=
  "." ++ (numbered n).condition

/-- A tree written down as lines for the machine. -/
def Scheme.lines (o : LoweringOptions) : Scheme Line where
  leaf
    | .repeated step _ count =>
      List.replicate (o.copies count) (.instruction (.counted (o.each count) step))
    | .printChar _ => [.instruction .movzbl, .instruction (.call .putChar)]
    | .readChar _ => [.instruction (.call .getChar), .instruction .movb]
    | .loop .. | .foreign .. | .absent => []
  enter n := [.instruction (.jmp (LoopLabels.conditionSymbol n)), .label (LoopLabels.bodySymbol n)]
  exit n := [.label (LoopLabels.conditionSymbol n), .instruction (.cmpb 0),
    .instruction (.jne (LoopLabels.bodySymbol n))]

namespace Machine

/-- The lines before those of the tree. -/
def prologue : List Line :=
  [.directive, .directive, .directive, .label "main", .instruction .pushq, .instruction (.leaq "tape")]

/-- The lines after those of the tree; the last one is empty. -/
def epilogue : List Line :=
  [.instruction .xorl, .instruction .popq, .instruction .ret, .directive, .directive, .directive,
    .directive, .directive, .directive, .label "tape", .directive, .directive, .directive, .directive]

/-- The code of a program. -/
def code (o : LoweringOptions) (body : List Stmt) : List Line :=
  prologue ++ (Scheme.lines o).block 0 body ++ epilogue

/-- The code of a program, after `n` labels. -/
def codeAfter (n : Nat) (o : LoweringOptions) (body : List Stmt) : List Line :=
  prologue ++ (Scheme.lines o).block n body ++ epilogue

/-! ## Reading lines -/

theorem kind_of_isDigit {c : Char} (h : c.isDigit) : kind c = .word := by
  have hblank : c ≠ ' ' := by rintro rfl; cases h
  have hcomma : c ≠ ',' := by rintro rfl; cases h
  simp [kind, hblank, hcomma]

theorem read_blanks_append (n : Nat) (text : List Char) :
    Lexeme.read kind (List.replicate n ' ' ++ text) = Lexeme.read kind text := by
  refine Lexeme.read_blank fun c hc => ?_
  rw [List.eq_of_mem_replicate hc]
  rfl

/-- An instruction or directive is read as its name and its operands. -/
theorem read_inst {op operands : String} (hne : op.toList ≠ []) (hop : Lexeme.Uniform kind .word op.toList) :
    Lexeme.read kind (Assembly.inst op operands).toList = op :: Lexeme.read kind operands.toList := by
  have hindent : "        ".toList = List.replicate 8 ' ' := by decide
  have hword : Lexeme.read kind op.toList = [op] := by
    rw [Lexeme.read_same (.inl rfl) hne hop, String.ofList_toList]
  rw [Assembly.inst]
  -- Only before operands is the name padded.
  split
  case isTrue h =>
    rw [String.toList_append, hindent, read_blanks_append, hword, h]
    rfl
  case isFalse h =>
    have hpadding : (String.ofList (List.replicate (7 - op.length) ' ')).toList ++
        (" ".toList ++ operands.toList) = List.replicate (7 - op.length + 1) ' ' ++ operands.toList := by
      rw [String.toList_ofList, List.replicate_succ', List.append_assoc]
      rfl
    simp only [String.toList_append, List.append_assoc]
    rw [hindent, read_blanks_append, hpadding, List.replicate_succ, List.cons_append,
      Lexeme.read_append_cons (.inl rfl), ← List.cons_append, ← List.replicate_succ,
      read_blanks_append, hword, List.singleton_append]

theorem uniform_numbered {stem : String} (hstem : Lexeme.Uniform kind .word stem.toList) (n : Nat) :
    Lexeme.Uniform kind .word (stem ++ toString n).toList := by
  rw [String.toList_append]
  exact hstem.append fun c hc => kind_of_isDigit (Lexeme.isDigit_of_mem_toString hc)

theorem toList_dollar (n : Nat) : ("$" ++ toString n).toList = '$' :: (toString n).toList := by
  rw [String.toList_append]
  rfl

/-- An immediate operand, and what follows it. -/
theorem read_immediate (n : Nat) {rest : String} (hrest : rest.toList.head? = some ',') :
    Lexeme.read kind ("$" ++ toString n ++ rest).toList =
      ("$" ++ toString n) :: Lexeme.read kind rest.toList := by
  obtain ⟨tail, htail⟩ := List.head?_eq_some_iff.1 hrest
  have hword : Lexeme.Uniform kind .word ("$" ++ toString n).toList :=
    uniform_numbered (by decide) n
  rw [String.toList_append, htail, Lexeme.read_append_cons (.inr rfl),
    Lexeme.read_same (.inl rfl) (by simp) hword, String.ofList_toList,
    List.singleton_append]

theorem immediate?_dollar (n : Nat) : immediate? ("$" ++ toString n) = some n := by
  rw [immediate?, toList_dollar]
  simp only [String.ofList_toList]
  exact Lexeme.number?_toString n

/-- Words that name an instruction, as far as the reader can tell. -/
def IsMnemonic (op : String) : Prop :=
  (op.toList ≠ [] ∧ Lexeme.Uniform kind .word op.toList) ∧
    op.toList.getLast? ≠ some ':' ∧ op.toList.head? ≠ some '.'

instance (op : String) : Decidable (IsMnemonic op) :=
  inferInstanceAs (Decidable (_ ∧ _))

theorem readLine_inst {op operands : String} (hop : IsMnemonic op) :
    readLine (Assembly.inst op operands).toList =
      (instruction? op (Lexeme.read kind operands.toList)).map .instruction := by
  rw [readLine, read_inst hop.1.1 hop.1.2, line?, if_neg fun h => hop.2.1 h.1, if_neg hop.2.2]

/-- An instruction with an immediate operand and another one. -/
theorem readLine_immediate {op rest : String} (operand : String) (hop : IsMnemonic op)
    (hhead : rest.toList.head? = some ',') (hrest : Lexeme.read kind rest.toList = [",", operand])
    {make : Nat → Instruction}
    (hmake : ∀ n, instruction? op [n, ",", operand] = (immediate? n).map make) (n : Nat) :
    readLine (Assembly.inst op ("$" ++ toString n ++ rest)).toList = some (.instruction (make n)) := by
  rw [readLine_inst hop, read_immediate n hhead, hrest, hmake, immediate?_dollar]
  rfl

theorem wrap_natCast (k : Nat) : Layout.wrap k = ((k % 256 : Nat) : Int) := by
  simp [Layout.wrap, Layout.cellValues]

/-- A counted step is read as the instruction for it. -/
theorem readLine_step (k : Nat) (s : Step) : (Assembly.step s k).map (readLine ·.toList) =
    [some (.instruction (.counted k s))] := by
  cases s with
  | moveRight =>
    exact congrArg ([·]) (readLine_immediate "%rbx" (by decide) (by decide) (by decide)
      (fun _ => rfl) k)
  | moveLeft =>
    exact congrArg ([·]) (readLine_immediate "%rbx" (by decide) (by decide) (by decide)
      (fun _ => rfl) k)
  | increment =>
    rw [Assembly.step, wrap_natCast]
    exact congrArg ([·]) (readLine_immediate "(%rbx)" (by decide) (by decide) (by decide)
      (fun _ => rfl) (k % 256))
  | decrement =>
    rw [Assembly.step, wrap_natCast]
    exact congrArg ([·]) (readLine_immediate "(%rbx)" (by decide) (by decide) (by decide)
      (fun _ => rfl) (k % 256))

/-- A symbol with a number is read as a label, if a colon follows it. -/
theorem readLine_label {stem : String} (hstem : Lexeme.Uniform kind .word stem.toList) (n : Nat) :
    readLine (stem ++ toString n ++ ":").toList = some (.label (stem ++ toString n)) := by
  have hword : Lexeme.Uniform kind .word (stem ++ toString n ++ ":").toList := by
    rw [String.toList_append]
    exact (uniform_numbered hstem n).append (by decide)
  have hlist : (stem ++ toString n ++ ":").toList = (stem ++ toString n).toList ++ [':'] :=
    String.toList_append
  rw [readLine, Lexeme.read_same (.inl rfl) (by simp) hword, String.ofList_toList, line?,
    if_pos ⟨by rw [hlist, List.getLast?_append]; rfl, rfl⟩, hlist, List.dropLast_concat,
    String.ofList_toList]

/-- A jump to a symbol with a number. -/
theorem readLine_jump {op stem : String} (hop : IsMnemonic op)
    (hstem : Lexeme.Uniform kind .word stem.toList) {make : String → Instruction}
    (hmake : ∀ symbol, instruction? op [symbol] = some (make symbol)) (n : Nat) :
    readLine (Assembly.inst op (stem ++ toString n)).toList =
      some (.instruction (make (stem ++ toString n))) := by
  have hword := uniform_numbered hstem n
  rw [readLine_inst hop, Lexeme.read_same (.inl rfl) (by simp) hword,
    String.ofList_toList, hmake]
  rfl

end Machine

namespace LoopLabels

theorem bodySymbol_eq (n : Nat) : bodySymbol n = ".loop_body_" ++ toString n := by
  rw [bodySymbol, numbered, ← String.append_assoc, ← String.append_assoc]
  rfl

theorem conditionSymbol_eq (n : Nat) : conditionSymbol n = ".loop_condition_" ++ toString (n + 1) := by
  rw [conditionSymbol, numbered, ← String.append_assoc, ← String.append_assoc]
  rfl

end LoopLabels

namespace Machine

variable {o : LoweringOptions}

theorem readLine_loopEnter (n : Nat) :
    (Assembly.target.loopEnter (.numbered n)).map (readLine ·.toList) =
      ((Scheme.lines o).enter n).map some := by
  have hjmp : readLine (Assembly.inst "jmp" (LoopLabels.conditionSymbol n)).toList =
      some (.instruction (.jmp (LoopLabels.conditionSymbol n))) := by
    rw [LoopLabels.conditionSymbol_eq]
    exact readLine_jump (by decide) (by decide) (fun _ => rfl) (n + 1)
  have hlabel : readLine (LoopLabels.bodySymbol n ++ ":").toList =
      some (.label (LoopLabels.bodySymbol n)) := by
    rw [LoopLabels.bodySymbol_eq]
    exact readLine_label (by decide) n
  exact congrArg₂ ([·, ·]) hjmp hlabel

theorem readLine_loopExit (n : Nat) :
    (Assembly.target.loopExit (.numbered n)).map (readLine ·.toList) =
      ((Scheme.lines o).exit n).map some := by
  have hlabel : readLine (LoopLabels.conditionSymbol n ++ ":").toList =
      some (.label (LoopLabels.conditionSymbol n)) := by
    rw [LoopLabels.conditionSymbol_eq]
    exact readLine_label (by decide) (n + 1)
  have hcmpb : readLine (Assembly.inst "cmpb" "$0, (%rbx)").toList = some (.instruction (.cmpb 0)) := by
    decide
  have hjne : readLine (Assembly.inst "jne" (LoopLabels.bodySymbol n)).toList =
      some (.instruction (.jne (LoopLabels.bodySymbol n))) := by
    rw [LoopLabels.bodySymbol_eq]
    exact readLine_jump (by decide) (by decide) (fun _ => rfl) n
  exact congr (congrArg₂ ([·, ·, ·]) hlabel hcmpb) hjne

/-- The options for assembly. -/
def options (optimized : Bool) : LoweringOptions :=
  { target := Assembly.target, optimized }

variable {optimized : Bool} {body : List Stmt}

/-- The lines of a tree are read as what the tree says. -/
theorem readLine_block (hknown : Stmt.Everywhere (·.isKnown) body) (n : Nat) :
    ((Scheme.chunks (options optimized)).block n body).flatMap (·.map (readLine ·.toList)) =
      ((Scheme.lines (options optimized)).block n body).map some := by
  rw [List.map_eq_flatMap]
  refine Scheme.flatMap_block ?_ ?_ ?_ hknown n
  · intro s hs hk
    cases s with
    | repeated step pos count =>
      have hstep := readLine_step ((options optimized).each count) step
      rw [Scheme.chunks, Scheme.lines, List.flatMap_replicate, List.flatMap_replicate]
      exact congrArg (fun l => (List.replicate _ l).flatten) hstep
    | printChar | readChar => rfl
    | loop => cases hs
    | foreign | absent => cases hk
  · intro n
    rw [← List.map_eq_flatMap, Scheme.enter_chunks, List.flatMap_singleton]
    exact readLine_loopEnter n
  · intro n
    rw [← List.map_eq_flatMap, Scheme.exit_chunks, List.flatMap_singleton]
    exact readLine_loopExit n

end Machine

/-! ## Symbols -/

/-- The numbers that the counter gives to the labels of a tree. -/
def Scheme.numbers : Scheme Nat where
  leaf _ := []
  enter n := [n]
  exit n := [n + 1]

/-- No number is given twice. -/
theorem Scheme.nodup_numbers (n : Nat) (body : List Stmt) : (Scheme.numbers.block n body).Nodup ∧
    ∀ k ∈ Scheme.numbers.block n body, n ≤ k ∧ k < n + 2 * Stmt.loopCountList body := by
  induction body using Stmt.listInduction generalizing n with
  | nil => exact ⟨List.nodup_nil, fun k hk => absurd hk List.not_mem_nil⟩
  | leaf s rest hs ih =>
    rw [block_leaf hs, Stmt.loopCountList, Stmt.loopCount_leaf hs, Nat.zero_add]
    exact ih n
  | loop pos body close rest ihbody ih =>
    obtain ⟨hbody, hbodylt⟩ := ihbody (n + 2)
    obtain ⟨hrest, hrestlt⟩ := ih (n + 2 + 2 * Stmt.loopCountList body)
    rw [block_loop, Stmt.loopCountList, Stmt.loopCount]
    -- The body takes its numbers after the two of the loop, and the rest after those.
    constructor
    · simp only [numbers, List.nodup_append, List.mem_append, List.mem_singleton] at *
      grind
    · simp only [numbers, List.mem_append, List.mem_singleton] at *
      grind

namespace Machine

variable {o : LoweringOptions} {body : List Stmt}

/-- The number at the end of a symbol. -/
def number? (symbol : String) : Option Nat :=
  Lexeme.number? (String.ofList (symbol.toList.reverse.takeWhile Char.isDigit).reverse)

theorem number?_numbered {stem : String}
    (hstem : stem.toList.reverse.takeWhile Char.isDigit = []) (n : Nat) :
    number? (stem ++ toString n) = some n := by
  have hdigits : ∀ c ∈ (toString n).toList.reverse, c.isDigit := fun c hc =>
    Lexeme.isDigit_of_mem_toString (List.mem_reverse.1 hc)
  rw [number?, String.toList_append, List.reverse_append, List.takeWhile_append_of_pos hdigits, hstem,
    List.append_nil, List.reverse_reverse, String.ofList_toList, Lexeme.number?_toString]

theorem number?_bodySymbol (n : Nat) : number? (LoopLabels.bodySymbol n) = some n := by
  rw [LoopLabels.bodySymbol_eq]
  exact number?_numbered (by decide) n

theorem number?_conditionSymbol (n : Nat) : number? (LoopLabels.conditionSymbol n) = some (n + 1) := by
  rw [LoopLabels.conditionSymbol_eq]
  exact number?_numbered (by decide) (n + 1)

/-- The symbols of a tree carry the numbers of its labels. -/
theorem number?_symbols (hknown : Stmt.Everywhere (·.isKnown) body) (n : Nat) :
    (symbols ((Scheme.lines o).block n body)).map number? = (Scheme.numbers.block n body).map some := by
  rw [symbols, List.map_filterMap, List.filterMap_eq_flatMap_toList, List.map_eq_flatMap]
  refine Scheme.flatMap_block ?_ ?_ ?_ hknown n
  · intro s hs hk
    cases s with
    | repeated step pos count => simp [Scheme.lines, Scheme.numbers, Line.symbol?]
    | printChar | readChar => rfl
    | loop => cases hs
    | foreign | absent => cases hk
  · intro n
    simp [Scheme.lines, Scheme.numbers, Line.symbol?, number?_bodySymbol]
  · intro n
    simp [Scheme.lines, Scheme.numbers, Line.symbol?, number?_conditionSymbol]

/-- The symbols of a program are those of its tree, and two without a number. -/
theorem symbols_codeAfter (n : Nat) : symbols (codeAfter n o body) =
    "main" :: symbols ((Scheme.lines o).block n body) ++ ["tape"] := by
  rw [symbols, codeAfter, List.filterMap_append, List.filterMap_append]
  rfl

/-- No symbol is defined twice. -/
theorem nodup_symbols_after (hknown : Stmt.Everywhere (·.isKnown) body) (n : Nat) :
    (symbols (codeAfter n o body)).Nodup := by
  have hnumbers := number?_symbols (o := o) hknown n
  have hnodup : (symbols ((Scheme.lines o).block n body)).Nodup := by
    refine .of_map number? ?_
    rw [hnumbers]
    exact (Scheme.nodup_numbers n body).1.map (Option.some_injective _)
  -- The other two symbols carry no number.
  have hother : ∀ symbol ∈ symbols ((Scheme.lines o).block n body), number? symbol ≠ none := by
    intro symbol hsymbol hnone
    have hmem := List.mem_map_of_mem (f := number?) hsymbol
    rw [hnone, hnumbers] at hmem
    simp at hmem
  rw [symbols_codeAfter, List.nodup_append, List.nodup_cons]
  have hmain : number? "main" = none := by decide
  have htape : number? "tape" = none := by decide
  refine ⟨⟨fun h => hother _ h hmain, hnodup⟩, List.nodup_singleton _, ?_⟩
  intro a ha b hb
  obtain rfl := List.mem_singleton.1 hb
  rcases List.mem_cons.1 ha with rfl | ha
  · decide
  · rintro rfl
    exact hother _ ha htape

theorem nodup_symbols (hknown : Stmt.Everywhere (·.isKnown) body) : (symbols (code o body)).Nodup :=
  nodup_symbols_after hknown 0

/-! ## Reading the text -/

theorem newline_not_mem_toString (n : Nat) : '\n' ∉ (toString n).toList := by
  intro h
  cases Lexeme.isDigit_of_mem_toString h

theorem newline_not_mem_inst {op operands : String} (hop : '\n' ∉ op.toList)
    (hoperands : '\n' ∉ operands.toList) : '\n' ∉ (Assembly.inst op operands).toList := by
  rw [Assembly.inst]
  split <;> simp [hop, hoperands]

theorem newline_not_mem_immediate (n : Nat) {rest : String} (h : '\n' ∉ rest.toList) :
    '\n' ∉ ("$" ++ toString n ++ rest).toList := by
  rw [String.toList_append, toList_dollar, List.cons_append, List.mem_cons, List.mem_append]
  rintro (h' | h' | h')
  · cases h'
  · exact newline_not_mem_toString n h'
  · exact h h'

theorem newline_not_mem_step (k : Nat) (s : Step) : ∀ l ∈ Assembly.step s k, '\n' ∉ l.toList := by
  intro l hl
  cases s with
  | moveRight | moveLeft =>
    obtain rfl := List.mem_singleton.1 hl
    exact newline_not_mem_inst (by decide) (newline_not_mem_immediate k (by decide))
  | increment | decrement =>
    rw [Assembly.step, wrap_natCast] at hl
    obtain rfl := List.mem_singleton.1 hl
    exact newline_not_mem_inst (by decide) (newline_not_mem_immediate (k % 256) (by decide))

theorem newline_not_mem_numbered {stem : String} (h : '\n' ∉ stem.toList) (n : Nat) :
    '\n' ∉ (stem ++ toString n).toList := by
  rw [String.toList_append, List.mem_append]
  exact not_or.2 ⟨h, newline_not_mem_toString n⟩

theorem newline_not_mem_bodySymbol (n : Nat) : '\n' ∉ (LoopLabels.bodySymbol n).toList := by
  rw [LoopLabels.bodySymbol_eq]
  exact newline_not_mem_numbered (by decide) n

theorem newline_not_mem_conditionSymbol (n : Nat) : '\n' ∉ (LoopLabels.conditionSymbol n).toList := by
  rw [LoopLabels.conditionSymbol_eq]
  exact newline_not_mem_numbered (by decide) (n + 1)

/-- A chunk that has lines, none of which is more than one. -/
def IsLines (c : Chunk) : Prop :=
  c ≠ [] ∧ ∀ l ∈ c, '\n' ∉ l.toList

instance (c : Chunk) : Decidable (IsLines c) :=
  inferInstanceAs (Decidable (_ ∧ _))

theorem isLines_loopEnter (n : Nat) : IsLines (Assembly.target.loopEnter (.numbered n)) := by
  refine ⟨List.cons_ne_nil _ _, ?_⟩
  rw [Assembly.target, List.forall_mem_cons, List.forall_mem_singleton]
  refine ⟨newline_not_mem_inst (by decide) (newline_not_mem_conditionSymbol n), ?_⟩
  rw [String.toList_append, List.mem_append]
  exact not_or.2 ⟨newline_not_mem_bodySymbol n, by decide⟩

theorem isLines_loopExit (n : Nat) : IsLines (Assembly.target.loopExit (.numbered n)) := by
  refine ⟨List.cons_ne_nil _ _, ?_⟩
  rw [Assembly.target, List.forall_mem_cons, List.forall_mem_cons, List.forall_mem_singleton]
  refine ⟨?_, by decide, newline_not_mem_inst (by decide) (newline_not_mem_bodySymbol n)⟩
  rw [String.toList_append, List.mem_append]
  exact not_or.2 ⟨newline_not_mem_conditionSymbol n, by decide⟩

theorem isLines_chunks (optimized : Bool) {p : Program} (hknown : Stmt.Everywhere (·.isKnown) p.body)
    (n : Nat) : ∀ c ∈ p.chunksAfter n (options optimized), IsLines c := by
  have hprologue : IsLines Assembly.target.prologue := by decide +kernel
  have hepilogue : IsLines Assembly.target.epilogue := by decide +kernel
  have hprint : IsLines Assembly.target.printChar := by decide +kernel
  have hread : IsLines Assembly.target.readChar := by decide +kernel
  have hstep : ∀ (k : Nat) (s : Step), IsLines (Assembly.target.step s k) := fun k s =>
    ⟨by cases s <;> exact List.cons_ne_nil _ _, newline_not_mem_step k s⟩
  exact Program.forall_mem_chunks hprologue hepilogue hstep hprint hread isLines_loopEnter
    isLines_loopExit hknown n

theorem splitOn_lines {lines : List String} (h : ∀ l ∈ lines, '\n' ∉ l.toList) :
    (Chunk.chars lines).splitOn '\n' = lines.map String.toList ++ [[]] := by
  induction lines with
  | nil => rfl
  | cons l lines ih =>
    obtain ⟨hl, hlines⟩ := List.forall_mem_cons.1 h
    have hl : ∀ c ∈ l.toList, (c == '\n') = false := by
      intro c hc
      rw [beq_eq_false_iff_ne]
      rintro rfl
      exact hl hc
    rw [Chunk.chars, List.flatMap_cons, List.append_assoc, List.singleton_append, List.splitOn,
      List.splitOnP_append_cons_of_forall_mem hl _ (by decide)]
    exact congrArg (l.toList :: ·) (ih hlines)

theorem mapM_of_map {α β : Type*} {f : α → Option β} {xs : List α} {ys : List β}
    (h : xs.map f = ys.map some) : xs.mapM f = some ys := by
  induction xs generalizing ys with
  | nil =>
    obtain rfl := List.map_eq_nil_iff.1 h.symm
    rfl
  | cons x xs ih =>
    cases ys with
    | nil => cases h
    | cons y ys =>
      obtain ⟨hx, hxs⟩ := List.cons.inj h
      rw [List.mapM_cons, hx, ih hxs]
      rfl

theorem readLine_prologue :
    Assembly.target.prologue.map (readLine ·.toList) = prologue.map some := by
  decide +kernel

/-- After the last line feed there is an empty line. -/
theorem readLine_epilogue :
    Assembly.target.epilogue.map (readLine ·.toList) ++ [readLine []] = epilogue.map some := by
  decide +kernel

/-- The lines of a text that is made of lines, and an empty one after the last line
    feed. -/
theorem splitOn_textOf {chunks : List Chunk} (h : ∀ c ∈ chunks, IsLines c) :
    (Program.textOf chunks).toList.splitOn '\n' = chunks.flatten.map String.toList ++ [[]] := by
  rw [Program.toList_textOf fun c hc => (h c hc).1, splitOn_lines]
  intro l hl
  obtain ⟨c, hc, hlc⟩ := List.mem_flatten.1 hl
  exact (h c hc).2 l hlc

/-- The text of a program is read as its code. -/
theorem read_text_after (optimized : Bool) {p : Program}
    (hknown : Stmt.Everywhere (·.isKnown) p.body) (n : Nat) :
    read (Program.textOf (p.chunksAfter n (options optimized))) =
      some (codeAfter n (options optimized) p.body) := by
  have hflatten : (p.chunksAfter n (options optimized)).flatten.map (readLine ·.toList) =
      Assembly.target.prologue.map (readLine ·.toList) ++
        ((Scheme.chunks (options optimized)).block n p.body).flatMap (·.map (readLine ·.toList)) ++
        Assembly.target.epilogue.map (readLine ·.toList) := by
    simp only [Program.chunksAfter, List.flatten_append, List.flatten_cons, List.flatten_nil,
      List.append_nil, List.map_append, List.map_flatten, List.flatMap_def]
    rfl
  have hcode : ((p.chunksAfter n (options optimized)).flatten.map String.toList ++ [[]]).map readLine =
      (codeAfter n (options optimized) p.body).map some := by
    rw [List.map_append, List.map_map]
    refine (congrArg (· ++ [readLine []]) hflatten).trans ?_
    rw [readLine_prologue, readLine_block hknown, List.append_assoc, readLine_epilogue, codeAfter,
      List.map_append, List.map_append]
  rw [read, splitOn_textOf (isLines_chunks optimized hknown n), mapM_of_map hcode]
  exact if_pos (nodup_symbols_after hknown n)

theorem read_text (optimized : Bool) {p : Program} (hknown : Stmt.Everywhere (·.isKnown) p.body) :
    read (Program.textOf (p.chunks (options optimized))) = some (code (options optimized) p.body) :=
  read_text_after optimized hknown 0

end Machine

end TapeCompiler
