import TapeCompiler.Proofs.CStatements
import TapeCompiler.Proofs.Lowering
import TapeCompiler.Target.C

/-!
# Reading generated C

Every line of generated text is read as the lexemes it was meant to be, whatever
follows it (`C.Reads`), so a program is read as the lexemes of its tree
(`Scheme.lexemes`). These are one statement after the other, and the braces of a loop
enclose those of its body, so they are read as the statements of the tree
(`Stmt.statementsList`). Together that is `C.read_text`.
-/

namespace TapeCompiler

open C (kind uncomment Statement Reading)

/-- The statement for a step that is done `k` times. -/
def C.Statement.counted (k : Nat) : Step → Statement
  | .moveRight => .move k
  | .moveLeft => .move (-k)
  | .increment => .change k
  | .decrement => .change (-k)

namespace Stmt

mutual

/-- The C statements of a statement. -/
def statements (o : LoweringOptions) : Stmt → List Statement
  | .repeated step _ count => List.replicate (o.copies count) (.counted (o.each count) step)
  | .printChar _ => [.put]
  | .readChar _ => [.get]
  | .loop _ body _ => [.loop (statementsList o body)]
  | .foreign .. | .absent => []

/-- The C statements of a statement list. -/
def statementsList (o : LoweringOptions) : List Stmt → List Statement
  | [] => []
  | s :: rest => s.statements o ++ statementsList o rest

end

theorem statementsList_append (o : LoweringOptions) (xs ys : List Stmt) :
    statementsList o (xs ++ ys) = statementsList o xs ++ statementsList o ys := by
  induction xs with
  | nil => rfl
  | cons s xs ih => rw [List.cons_append, statementsList, statementsList, ih, List.append_assoc]

end Stmt

/-! ## The lexemes of a tree -/

/-- The lexemes of a step before its count. -/
def C.stem : Step → List String
  | .moveRight => ["ptr", "+="]
  | .moveLeft => ["ptr", "-="]
  | .increment => ["*", "ptr", "+="]
  | .decrement => ["*", "ptr", "-="]

/-- The lexemes of a step that is done `k` times. -/
def C.lexemes (k : Nat) (s : Step) : List String :=
  stem s ++ [toString k] ++ [";"]

/-- A tree written down as the lexemes of C text. -/
def Scheme.lexemes (o : LoweringOptions) : Scheme String where
  leaf
    | .repeated step _ count => (List.replicate (o.copies count) (C.lexemes (o.each count) step)).flatten
    | .printChar _ => ["putchar", "(", "*", "ptr", ")", ";"]
    | .readChar _ =>
      ["*", "ptr", "=", "(", "unsigned", "char", ")", "getchar", "(", ")", ";"]
    | .loop .. | .foreign .. | .absent => []
  enter _ := ["while", "(", "*", "ptr", ")", "\x7b"]
  exit _ := ["\x7d"]

namespace C

/-! ## From lexemes to statements -/

/-- Lexemes that only wait for the end of their statement. -/
def IsPart (lexeme : String) : Prop :=
  lexeme ≠ ";" ∧ lexeme ≠ "\x7b" ∧ lexeme ≠ "\x7d"

instance (lexeme : String) : Decidable (IsPart lexeme) :=
  inferInstanceAs (Decidable (_ ∧ _))

theorem isPart_toString (k : Nat) : IsPart (toString k) := by
  -- All characters of a number are digits.
  have h : ∀ s : String, s.toList.all Char.isDigit = false → toString k ≠ s := by
    rintro s hs rfl
    have hdigits : (toString k).toList.all Char.isDigit :=
      List.all_eq_true.2 fun c => Lexeme.isDigit_of_mem_toString
    rw [hs] at hdigits
    cases hdigits
  exact ⟨h _ (by decide), h _ (by decide), h _ (by decide)⟩

namespace Reading

theorem take_part {lexeme : String} (h : IsPart lexeme) (r : Reading) :
    r.take lexeme = some { r with pending := r.pending ++ [lexeme] } := by
  rw [take]
  · exact h.1
  · exact h.2.1
  · exact fun _ _ hclose _ => h.2.2 hclose
  · exact fun hclose _ => h.2.2 hclose

theorem foldlM_parts {parts : List String} (h : ∀ lexeme ∈ parts, IsPart lexeme) (r : Reading) :
    parts.foldlM take r = some { r with pending := r.pending ++ parts } := by
  induction parts generalizing r with
  | nil => simp
  | cons lexeme parts ih =>
    obtain ⟨hlexeme, hparts⟩ := List.forall_mem_cons.1 h
    rw [List.foldlM_cons, take_part hlexeme]
    refine (ih hparts _).trans ?_
    rw [List.append_assoc, List.singleton_append]

/-- The lexemes of a statement, and the semicolon after it. -/
theorem foldlM_statement {parts : List String} {s : Statement} (h : ∀ lexeme ∈ parts, IsPart lexeme)
    (hs : statement? parts = some s) (outer : List (List Statement)) (block : List Statement) :
    (parts ++ [";"]).foldlM take ⟨outer, block, []⟩ = some ⟨outer, s :: block, []⟩ := by
  rw [List.foldlM_append, foldlM_parts h]
  change [";"].foldlM take ⟨outer, block, [] ++ parts⟩ = _
  rw [List.nil_append, List.foldlM_cons, take]
  simp only [hs]
  rfl

/-- The lexemes of a counted step are read as its statement. -/
theorem foldlM_lexemes (k : Nat) (s : Step) (outer : List (List Statement)) (block : List Statement) :
    (lexemes k s).foldlM take ⟨outer, block, []⟩ = some ⟨outer, .counted k s :: block, []⟩ := by
  refine foldlM_statement ?_ ?_ outer block
  · rw [List.forall_mem_append, List.forall_mem_singleton]
    exact ⟨by cases s <;> decide, isPart_toString k⟩
  · cases s <;>
      simp only [stem, List.cons_append, List.nil_append, statement?, Lexeme.number?_toString] <;>
      rfl

theorem foldlM_trans {r r' r'' : Reading} {xs ys : List String} (hxs : xs.foldlM take r = some r')
    (hys : ys.foldlM take r' = some r'') : (xs ++ ys).foldlM take r = some r'' := by
  rw [List.foldlM_append, hxs]
  exact hys

theorem foldlM_copies (n k : Nat) (s : Step) (outer : List (List Statement)) (block : List Statement) :
    (List.replicate n (lexemes k s)).flatten.foldlM take ⟨outer, block, []⟩ =
      some ⟨outer, List.replicate n (.counted k s) ++ block, []⟩ := by
  induction n generalizing block with
  | zero => rfl
  | succ n ih =>
    rw [List.replicate_succ, List.flatten_cons, List.replicate_succ', List.append_assoc]
    exact foldlM_trans (foldlM_lexemes k s outer block) (ih _)

variable {o : LoweringOptions}

theorem foldlM_leaf {s : Stmt} (hs : s.isLoop = false) (hk : s.isKnown)
    (outer : List (List Statement)) (block : List Statement) :
    ((Scheme.lexemes o).leaf s).foldlM take ⟨outer, block, []⟩ =
      some ⟨outer, (s.statements o).reverse ++ block, []⟩ := by
  cases s with
  | repeated step pos count =>
    rw [Stmt.statements, List.reverse_replicate]
    exact foldlM_copies ..
  | printChar | readChar => rfl
  | loop => cases hs
  | foreign | absent => cases hk

/-- The lexemes of a tree are read as its statements. -/
theorem foldlM_block {body : List Stmt} (hknown : Stmt.Everywhere (·.isKnown) body) (n : Nat)
    (outer : List (List Statement)) (block : List Statement) :
    ((Scheme.lexemes o).block n body).foldlM take ⟨outer, block, []⟩ =
      some ⟨outer, (Stmt.statementsList o body).reverse ++ block, []⟩ := by
  induction body using Stmt.listInduction generalizing n outer block with
  | nil => rfl
  | leaf s rest hs ih =>
    rw [Scheme.block_leaf hs, Stmt.statementsList, List.reverse_append, List.append_assoc]
    exact foldlM_trans (foldlM_leaf hs hknown.head outer block) (ih hknown.tail n outer _)
  | loop pos body close rest ihbody ih =>
    obtain ⟨-, hbody, hrest⟩ := (Stmt.everywhere_loop ..).1 hknown
    -- The statements before the loop wait until its body has been read.
    have henter : ((Scheme.lexemes o).enter n).foldlM take ⟨outer, block, []⟩ =
        some ⟨block :: outer, [], []⟩ := rfl
    have hexit : ((Scheme.lexemes o).exit n).foldlM take
        ⟨block :: outer, (Stmt.statementsList o body).reverse ++ [], []⟩ =
        some ⟨outer, .loop ((Stmt.statementsList o body).reverse ++ []).reverse :: block, []⟩ := rfl
    rw [List.append_nil, List.reverse_reverse] at hexit
    have hinside := ihbody hbody (n + 2) (block :: outer) []
    rw [List.append_nil] at hinside
    have hstatements : (Stmt.statementsList o (.loop pos body close :: rest)).reverse ++ block =
        (Stmt.statementsList o rest).reverse ++ .loop (Stmt.statementsList o body) :: block := by
      simp [Stmt.statementsList, Stmt.statements]
    rw [Scheme.block_loop, hstatements]
    exact foldlM_trans (foldlM_trans (foldlM_trans henter hinside) hexit) (ih hrest _ outer _)

end Reading

/-! ## From text to lexemes -/

theorem uncomment_cons {x : Char} (hx : x ≠ '/') (xs : List Char) :
    uncomment false (x :: xs) = (uncomment false xs).map (x :: ·) := by
  cases xs with
  | nil => rfl
  | cons y xs => simp [uncomment, hx]

theorem uncomment_inside_cons {x : Char} (hx : x ≠ '*') {xs : List Char} (hne : xs ≠ []) :
    uncomment true (x :: xs) = uncomment true xs := by
  cases xs with
  | nil => exact absurd rfl hne
  | cons y xs => simp [uncomment, hx]

theorem uncomment_plain {xs : List Char} (h : '/' ∉ xs) (ys : List Char) :
    uncomment false (xs ++ ys) = (uncomment false ys).map (xs ++ ·) := by
  induction xs with
  | nil => simp
  | cons x xs ih =>
    rw [List.mem_cons, not_or] at h
    rw [List.cons_append, uncomment_cons (Ne.symm h.1), ih h.2, Option.map_map]
    rfl

/-- A comment is read as a blank. -/
theorem uncomment_comment {xs : List Char} (h : '*' ∉ xs) (ys : List Char) :
    uncomment false ('/' :: '*' :: (xs ++ '*' :: '/' :: ys)) =
      (uncomment false ys).map (' ' :: ·) := by
  rw [uncomment]
  induction xs with
  | nil => simp [uncomment]
  | cons x xs ih =>
    rw [List.mem_cons, not_or] at h
    rw [List.cons_append, uncomment_inside_cons (Ne.symm h.1) (by simp)]
    exact ih h.2

/-- The text is read as the given lexemes, whatever follows it. -/
def Reads (text : List Char) (lexemes : List String) : Prop :=
  ∃ clean, (∀ ys, uncomment false (text ++ ys) = (uncomment false ys).map (clean ++ ·)) ∧
    ∀ zs, Lexeme.read kind (clean ++ zs) = lexemes ++ Lexeme.read kind zs

namespace Reads

theorem nil : Reads [] [] :=
  ⟨[], fun ys => by simp, fun zs => rfl⟩

theorem append {xs ys : List Char} {us vs : List String} (hx : Reads xs us) (hy : Reads ys vs) :
    Reads (xs ++ ys) (us ++ vs) := by
  obtain ⟨cx, hcx, hux⟩ := hx
  obtain ⟨cy, hcy, huy⟩ := hy
  refine ⟨cx ++ cy, fun zs => ?_, fun zs => ?_⟩
  · rw [List.append_assoc, hcx, hcy, Option.map_map]
    simp only [Function.comp_def, List.append_assoc]
  · rw [List.append_assoc, hux, huy, List.append_assoc]

/-- A line without a comment. -/
theorem line {xs : List Char} (h : '/' ∉ xs) : Reads (xs ++ ['\n']) (Lexeme.read kind xs) := by
  refine ⟨xs ++ ['\n'], uncomment_plain ?_, fun zs => ?_⟩
  · rw [List.mem_append]
    exact not_or.2 ⟨h, by decide⟩
  · have hblank : Lexeme.read kind (['\n'] ++ zs) = Lexeme.read kind zs :=
      Lexeme.read_blank (by decide)
    rw [List.append_assoc, ← hblank]
    exact Lexeme.read_append_cons (.inl rfl)

/-- A line with a comment at its end. -/
theorem comment {xs ys : List Char} (hx : '/' ∉ xs) (hy : '*' ∉ ys) :
    Reads (xs ++ '/' :: '*' :: (ys ++ ['*', '/', '\n'])) (Lexeme.read kind xs) := by
  refine ⟨xs ++ [' ', '\n'], fun zs => ?_, fun zs => ?_⟩
  · have htext : xs ++ '/' :: '*' :: (ys ++ ['*', '/', '\n']) ++ zs =
        xs ++ '/' :: '*' :: (ys ++ '*' :: '/' :: ('\n' :: zs)) := by simp
    rw [htext, uncomment_plain hx, uncomment_comment hy, uncomment_cons (by decide)]
    simp only [Option.map_map, Function.comp_def, List.append_assoc, List.cons_append, List.nil_append]
  · have hblank : Lexeme.read kind ([' ', '\n'] ++ zs) = Lexeme.read kind zs :=
      Lexeme.read_blank (by decide)
    rw [List.append_assoc, ← hblank]
    exact Lexeme.read_append_cons (.inl rfl)

theorem read_eq {text : List Char} {lexemes : List String} (h : Reads text lexemes) :
    (uncomment false text).map (Lexeme.read kind) = some lexemes := by
  obtain ⟨clean, hclean, hlexemes⟩ := h
  have htext := hclean []
  have hread := hlexemes []
  rw [List.append_nil] at htext hread
  rw [htext]
  simp [uncomment, hread]

end Reads

/-! ## Reading the text -/

theorem kind_of_isDigit {c : Char} (h : c.isDigit) : kind c = .word := by
  have hspace : c ≠ ' ' := by rintro rfl; cases h
  have hnewline : c ≠ '\n' := by rintro rfl; cases h
  simp [kind, hspace, hnewline, Char.isAlphanum, h]

/-- A count after a blank, with a semicolon after it. -/
theorem read_count {xs : List Char} (h : xs.getLast? = some ' ') (k : Nat) :
    Lexeme.read kind (xs ++ (toString k).toList ++ [';']) =
      Lexeme.read kind xs ++ [toString k] ++ [";"] := by
  have hdigits : Lexeme.Uniform kind .word (toString k).toList := fun c hc =>
    kind_of_isDigit (Lexeme.isDigit_of_mem_toString hc)
  have hboundary : ∀ x ∈ xs.getLast?, ∀ y ∈ (toString k).toList.head?, Lexeme.sticks kind x y = false := by
    intro x hx y hy
    obtain rfl : ' ' = x := Option.some.inj (h.symm.trans hx)
    have hblank : kind ' ' = .blank := rfl
    simp [Lexeme.sticks, hblank]
  rw [Lexeme.read_append_cons (.inr rfl), Lexeme.read_append hboundary,
    Lexeme.read_same (.inl rfl) (Lexeme.toList_toString_ne_nil k) hdigits, String.ofList_toList]
  rfl

/-- The text of a step before its count. -/
def stemText : Step → String
  | .moveRight => "    ptr += "
  | .moveLeft => "    ptr -= "
  | .increment => "    *ptr += "
  | .decrement => "    *ptr -= "

theorem toList_step (k : Nat) (s : Step) : Chunk.chars (C.step s k) =
    (stemText s).toList ++ (toString k).toList ++ [';'] ++ ['\n'] := by
  cases s <;>
    simp only [C.step, C.line, Chunk.chars, List.flatMap_singleton, String.toList_append,
      List.append_assoc] <;>
    rfl

/-- The line of a counted step. -/
theorem reads_step (k : Nat) (s : Step) :
    Reads (Chunk.chars (C.step s k)) (lexemes k s) := by
  have hstem : Lexeme.read kind (stemText s).toList = stem s := by cases s <;> decide
  have hlast : (stemText s).toList.getLast? = some ' ' := by cases s <;> decide
  have hslash : '/' ∉ (stemText s).toList ++ (toString k).toList ++ [';'] := by
    simp only [List.mem_append, not_or]
    refine ⟨⟨by cases s <;> decide, fun h => ?_⟩, by decide⟩
    cases Lexeme.isDigit_of_mem_toString h
  rw [toList_step, lexemes, ← hstem, ← read_count hlast]
  exact .line hslash

/-- A line of a loop, with a label in a comment at its end. -/
theorem reads_label {xs stem : List Char} (hxs : '/' ∉ xs) (hstem : '*' ∉ stem) (n : Nat) :
    Reads (xs ++ '/' :: '*' :: (stem ++ (toString n).toList ++ [' '] ++ ['*', '/', '\n']))
      (Lexeme.read kind xs) := by
  refine .comment hxs ?_
  simp only [List.mem_append, not_or]
  refine ⟨⟨hstem, fun h => ?_⟩, by decide⟩
  cases Lexeme.isDigit_of_mem_toString h

theorem reads_loopEnter (n : Nat) :
    Reads (Chunk.chars (C.target.loopEnter (.numbered n)))
      ["while", "(", "*", "ptr", ")", "\x7b"] := by
  have htext : Chunk.chars (C.target.loopEnter (.numbered n)) =
      "    while (*ptr) \x7b ".toList ++ '/' :: '*' ::
        (" loop_body_".toList ++ (toString n).toList ++ [' '] ++ ['*', '/', '\n']) := by
    simp only [C.target, C.line, LoopLabels.numbered, Chunk.chars, List.flatMap_singleton,
      String.toList_append, List.append_assoc]
    rfl
  have hlexemes : Lexeme.read kind "    while (*ptr) \x7b ".toList =
      ["while", "(", "*", "ptr", ")", "\x7b"] := by decide
  rw [htext, ← hlexemes]
  exact reads_label (by decide) (by decide) n

theorem reads_loopExit (n : Nat) :
    Reads (Chunk.chars (C.target.loopExit (.numbered n))) ["\x7d"] := by
  have htext : Chunk.chars (C.target.loopExit (.numbered n)) =
      "    \x7d ".toList ++ '/' :: '*' ::
        (" loop_condition_".toList ++ (toString (n + 1)).toList ++ [' '] ++ ['*', '/', '\n']) := by
    simp only [C.target, C.line, LoopLabels.numbered, Chunk.chars, List.flatMap_singleton,
      String.toList_append, List.append_assoc]
    rfl
  have hlexemes : Lexeme.read kind "    \x7d ".toList = ["\x7d"] := by decide
  rw [htext, ← hlexemes]
  exact reads_label (by decide) (by decide) (n + 1)

/-- The options for C. -/
def options (optimized : Bool) : LoweringOptions :=
  { target := C.target, optimized }

theorem reads_copies {c : Chunk} {us : List String} (h : Reads c.chars us) (n : Nat) :
    Reads (Chunk.chars (List.replicate n c).flatten) (List.replicate n us).flatten := by
  induction n with
  | zero => exact .nil
  | succ n ih =>
    rw [List.replicate_succ, List.flatten_cons, List.replicate_succ, List.flatten_cons,
      Chunk.chars_append]
    exact h.append ih

theorem reads_printChar : Reads C.target.printChar.chars ["putchar", "(", "*", "ptr", ")", ";"] := by
  have htext : C.target.printChar.chars = "    putchar(*ptr);".toList ++ ['\n'] := by decide
  have hlexemes : Lexeme.read kind "    putchar(*ptr);".toList =
      ["putchar", "(", "*", "ptr", ")", ";"] := by decide
  rw [htext, ← hlexemes]
  exact .line (by decide)

theorem reads_readChar : Reads C.target.readChar.chars
    ["*", "ptr", "=", "(", "unsigned", "char", ")", "getchar", "(", ")", ";"] := by
  have htext : C.target.readChar.chars = "    *ptr = (unsigned char)getchar();".toList ++ ['\n'] := by
    decide
  have hlexemes : Lexeme.read kind "    *ptr = (unsigned char)getchar();".toList =
      ["*", "ptr", "=", "(", "unsigned", "char", ")", "getchar", "(", ")", ";"] := by decide
  rw [htext, ← hlexemes]
  exact .line (by decide)

/-- The text of a tree is read as its lexemes. -/
theorem reads_block (optimized : Bool) {body : List Stmt} (hknown : Stmt.Everywhere (·.isKnown) body)
    (n : Nat) :
    Reads (Chunk.chars ((Scheme.chunks (options optimized)).block n body).flatten)
      ((Scheme.lexemes (options optimized)).block n body) := by
  refine Scheme.block_rel (R := fun chunks us => Reads (Chunk.chars chunks.flatten) us) .nil
    ?_ ?_ ?_ ?_ hknown n
  · intro as cs bs ds hab hcd
    rw [List.flatten_append, Chunk.chars_append]
    exact hab.append hcd
  · intro s hs hk
    cases s with
    | repeated step pos count => exact reads_copies (reads_step _ step) _
    | printChar =>
      rw [Scheme.chunks, List.flatten_singleton]
      exact reads_printChar
    | readChar =>
      rw [Scheme.chunks, List.flatten_singleton]
      exact reads_readChar
    | loop => cases hs
    | foreign | absent => cases hk
  · intro n
    exact reads_loopEnter n
  · intro n
    exact reads_loopExit n

/-- A text is read as the statements of what stands between prologue and epilogue. -/
theorem read_of_reads {text : String} {inner : List Char} {us : List String} {block : List Statement}
    (htext : text.toList = prologue.toList ++ (inner ++ epilogue.toList)) (hreads : Reads inner us)
    (htake : us.foldlM Reading.take {} = some ⟨[], block, []⟩) : read text = some block.reverse := by
  have hrest : text.toList.dropPrefix? prologue.toList = some (inner ++ epilogue.toList) :=
    List.dropPrefix?_eq_some_iff.2 ⟨_, htext, BEq.rfl⟩
  have hinner : (inner ++ epilogue.toList).dropSuffix? epilogue.toList = some inner :=
    List.dropSuffix?_eq_some_iff.2 ⟨_, rfl, BEq.rfl⟩
  obtain ⟨clean, hclean, hlexemes⟩ := Option.map_eq_some_iff.1 hreads.read_eq
  rw [read, hrest]
  simp only [Option.bind_eq_bind, Option.bind_some, hinner, hclean, hlexemes, htake]
  rfl

theorem chars_prologue : C.target.prologue.chars = prologue.toList := by
  decide +kernel

theorem chars_epilogue : C.target.epilogue.chars = epilogue.toList := by
  decide +kernel

/-- The text of a program is read as its statements. -/
theorem read_text (optimized : Bool) {p : Program} (hknown : Stmt.Everywhere (·.isKnown) p.body) :
    read (Program.textOf (p.chunks (options optimized))) =
      some (Stmt.statementsList (options optimized) p.body) := by
  have hne : ∀ c ∈ p.chunks (options optimized), c ≠ [] :=
    Program.forall_mem_chunks (List.cons_ne_nil _ _) (List.cons_ne_nil _ _)
      (fun k s => by cases s <;> exact List.cons_ne_nil _ _) (List.cons_ne_nil _ _)
      (List.cons_ne_nil _ _) (fun n => List.cons_ne_nil _ _) (fun n => List.cons_ne_nil _ _) hknown 0
  have htext : (Program.textOf (p.chunks (options optimized))).toList = prologue.toList ++
      (Chunk.chars ((Scheme.chunks (options optimized)).block 0 p.body).flatten ++
        epilogue.toList) := by
    rw [Program.toList_textOf hne, Program.chunks, Program.chunksAfter, List.flatten_append,
      List.flatten_cons, List.flatten_singleton, Chunk.chars_append, Chunk.chars_append, List.append_assoc]
    exact congrArg₂ _ chars_prologue (congrArg _ chars_epilogue)
  have hread := read_of_reads htext (reads_block optimized hknown 0) (Reading.foldlM_block hknown 0 [] [])
  rwa [List.append_nil, List.reverse_reverse] at hread

end C

end TapeCompiler
