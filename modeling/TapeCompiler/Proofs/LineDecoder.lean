import Mathlib.Data.List.SplitBy
import TapeCompiler.Proofs.AssemblyText
import TapeCompiler.Proofs.CText
import TapeCompiler.Proofs.Parsing
import TapeCompiler.Proofs.Reference
import TapeCompiler.Text.Blank

/-!
# Decoding generated text

Generated text can be decoded line by line, without reading it as a program: a line
that does a step some number of times stands for that many commands, a call or a line
of a loop stands for one, and every other line for none (`Assembly.commandsOfLine`,
`C.commandsOfLine`). What a line is shows in a few words on it, so a line of one kind
must not hold the words of another.

  * `LineDecoder.Decodes`: what a decoder makes of each chunk of a target. It decides
    what the text of a program decodes to (`LineDecoder.Decodes.commandsOf_text`).
  * `Command.wrapRuns`: commands with the lengths of the runs of `+` and of `-` reduced
    as assembly reduces them. The runs are those of the tree, as its runs are merged
    (`Stmt.wrapRuns_commandsList`).
  * `Program.decode_generate`: the text of a source decodes to its commands, with
    reduced runs if it is optimised assembly.
-/

namespace TapeCompiler

/-! ## The decoders -/

namespace LineDecoder

/-- The characters that can indent a line. -/
def isSpace (c : Char) : Bool :=
  c = ' ' || c = '\t' || c = '\n' || c = '\x0c' || c = '\r'

/-- The line without its indentation, if it is indented. -/
def indented? (line : List Char) : Option (List Char) :=
  if line.head?.any isSpace then some (line.dropWhile isSpace) else none

/-- The number that a text is, but for one of the endings. -/
def count? (endings : List String) (text : List Char) : Option Nat :=
  let digits := text.takeWhile Char.isDigit
  if digits ≠ [] ∧ String.ofList (text.dropWhile Char.isDigit) ∈ endings then
    some (Nat.ofDigitChars 10 digits 0)
  else
    none

/-- The commands of a text whose lines stand for the commands that `f` gives. -/
def commandsOf (f : List Char → List Command) (text : String) : List Command :=
  (text.toList.splitOn '\n').flatMap f

end LineDecoder

open LineDecoder

namespace Assembly

/-- The step that an operation with a count does. -/
def stepOf? : String → Option Step
  | "addq" => some .moveRight
  | "subq" => some .moveLeft
  | "addb" => some .increment
  | "subb" => some .decrement
  | _ => none

/-- The step of a line, and how often it is done. -/
def counted? (line : List Char) : Option (Step × Nat) := do
  let inst ← indented? line
  let step ← stepOf? (String.ofList (inst.takeWhile (!isSpace ·)))
  match (inst.dropWhile (!isSpace ·)).dropWhile isSpace with
  | '$' :: operands => (count? [", %rbx", ", (%rbx)"] operands).map (step, ·)
  | _ => none

/-- The commands of a line. -/
def commandsOfLine (line : List Char) : List Command :=
  match counted? line with
  | some (step, k) => List.replicate k step.command
  | none =>
    if "call    putchar".toList <:+: line then [.put]
    else if "call    getchar".toList <:+: line then [.get]
    else if "jmp     .loop_condition".toList <:+: line then [.enter]
    else if "jne     .loop_body".toList <:+: line then [.leave]
    else []

/-- The command bytes of a text. -/
def decode (text : String) : Bytes :=
  (commandsOf commandsOfLine text).map Command.toByte

end Assembly

namespace C

/-- The beginning of the line of a step, without indentation. -/
def beginning : Step → String
  | .moveRight => "ptr += "
  | .moveLeft => "ptr -= "
  | .increment => "*ptr += "
  | .decrement => "*ptr -= "

/-- The step of a line, and how often it is done. -/
def counted? (line : List Char) : Option (Step × Nat) := do
  let statement ← indented? line
  [Step.moveRight, .moveLeft, .increment, .decrement].findSome? fun step => do
    let rest ← statement.dropPrefix? (beginning step).toList
    (count? [";"] rest).map (step, ·)

/-- The commands of a line. -/
def commandsOfLine (line : List Char) : List Command :=
  match counted? line with
  | some (step, k) => List.replicate k step.command
  | none =>
    if "putchar(*ptr);".toList <:+: line then [.put]
    else if "getchar()".toList <:+: line then [.get]
    else if "while (*ptr) \x7b".toList <:+: line then [.enter]
    else if "\x7d /*".toList <+: line.dropWhile isBlank then [.leave]
    else []

/-- The command bytes of a text. -/
def decode (text : String) : Bytes :=
  (commandsOf commandsOfLine text).map Command.toByte

end C

/-! ## Lines with a number -/

namespace LineDecoder

/-- A line with a number in it. -/
def numbered (stem : String) (k : Nat) (ending : String) : List Char :=
  stem.toList ++ ((toString k).toList ++ ending.toList)

theorem not_mem_numbered {stem ending : String} {c : Char}
    (h : c ∉ stem.toList ++ ending.toList ∧ c.isDigit = false) (k : Nat) :
    c ∉ numbered stem k ending := by
  obtain ⟨⟨hstem, hending⟩, hdigit⟩ : (c ∉ stem.toList ∧ c ∉ ending.toList) ∧ c.isDigit = false := by
    rwa [List.mem_append, not_or] at h
  rw [numbered, List.mem_append, List.mem_append]
  rintro (hc | hc | hc)
  · exact hstem hc
  · exact absurd (Lexeme.isDigit_of_mem_toString hc) (by rw [hdigit]; decide)
  · exact hending hc

/-- A line that lacks a character of a word does not hold the word. -/
theorem not_infix_numbered {stem ending : String} {word : List Char} (c : Char) (hword : c ∈ word)
    (h : c ∉ stem.toList ++ ending.toList ∧ c.isDigit = false) (k : Nat) :
    ¬word <:+: numbered stem k ending :=
  fun hin => not_mem_numbered h k (hin.subset hword)

theorem infix_numbered {stem : String} {word : List Char} (h : word <:+: stem.toList) (k : Nat)
    (ending : String) : word <:+: numbered stem k ending :=
  h.trans (List.prefix_append _ _).isInfix

/-- A number is read back. -/
theorem count?_toString {endings : List String} {ending : String} (h : ending ∈ endings)
    (hending : ending.toList.takeWhile Char.isDigit = []) (k : Nat) :
    count? endings ((toString k).toList ++ ending.toList) = some k := by
  have hdigits : ∀ c ∈ (toString k).toList, c.isDigit := fun c => Lexeme.isDigit_of_mem_toString
  have hdrop : ending.toList.dropWhile Char.isDigit = ending.toList := by
    conv_rhs => rw [← List.takeWhile_append_dropWhile (p := Char.isDigit) (l := ending.toList), hending]
    rfl
  rw [count?, List.takeWhile_append_of_pos hdigits, List.dropWhile_append_of_pos hdigits, hending,
    hdrop, List.append_nil, String.ofList_toList, if_pos ⟨Lexeme.toList_toString_ne_nil k, h⟩,
    Lexeme.toList_toString, Nat.ofDigitChars_ten_toDigits]

end LineDecoder

/-! ## Decoding a text -/

/-- A tree written down as its commands, where a run of a step has another length. -/
def Scheme.runs (length : Step → Nat → Nat) : Scheme Command where
  leaf
    | .repeated step _ count => List.replicate (length step count) step.command
    | s => s.commands
  enter _ := [.enter]
  exit _ := [.leave]

theorem Scheme.runs_count : runs (fun _ count => count) = commands := by
  rw [runs, commands]
  congr
  funext s
  cases s <;> rfl

namespace LineDecoder

open Machine (IsLines)

/-- The lines of a chunk stand for the given commands. -/
structure Gives (f : List Char → List Command) (c : Chunk) (cs : List Command) : Prop where
  isLines : IsLines c
  flatMap_eq : c.flatMap (f ·.toList) = cs

instance (f : List Char → List Command) (c : Chunk) (cs : List Command) : Decidable (Gives f c cs) :=
  decidable_of_iff (IsLines c ∧ c.flatMap (f ·.toList) = cs)
    ⟨fun h => ⟨h.1, h.2⟩, fun h => ⟨h.1, h.2⟩⟩

theorem Gives.of_lines {f : List Char → List Command} {c : Chunk} {lines : List (List Char)}
    {cs : List Command} (hc : c.map String.toList = lines) (hne : lines ≠ [])
    (hlines : ∀ line ∈ lines, '\n' ∉ line) (hcs : lines.flatMap f = cs) : Gives f c cs := by
  subst hc
  refine ⟨⟨List.map_eq_nil_iff.not.1 hne, fun l hl => hlines _ (List.mem_map_of_mem hl)⟩, ?_⟩
  rwa [List.flatMap_map] at hcs

/-- What the chunks of a target stand for. A step that is done some number of times
    shows as a number of commands that may be smaller. -/
structure Decodes (f : List Char → List Command) (t : Target) (shown : Step → Nat → Nat) : Prop where
  empty : f [] = []
  prologue : Gives f t.prologue []
  epilogue : Gives f t.epilogue []
  step (k : Nat) (s : Step) : Gives f (t.step s k) (List.replicate (shown s k) s.command)
  printChar : Gives f t.printChar [.put]
  readChar : Gives f t.readChar [.get]
  loopEnter (n : Nat) : Gives f (t.loopEnter (.numbered n)) [.enter]
  loopExit (n : Nat) : Gives f (t.loopExit (.numbered n)) [.leave]

namespace Decodes

variable {f : List Char → List Command} {o : LoweringOptions} {shown : Step → Nat → Nat}

/-- The chunks of a tree stand for its commands. A run shows once for each copy of its
    chunk. -/
theorem flatMap_block (h : Decodes f o.target shown) {body : List Stmt}
    (hknown : Stmt.Everywhere (·.isKnown) body) (n : Nat) :
    ((Scheme.chunks o).block n body).flatMap (·.flatMap (f ·.toList)) =
      (Scheme.runs fun step count => o.copies count * shown step (o.each count)).block n body := by
  rw [← List.flatMap_singleton' (Scheme.block (Scheme.runs _) n body)]
  refine Scheme.flatMap_block ?_ ?_ ?_ hknown n
  · intro s hs hk
    rw [List.flatMap_singleton']
    cases s with
    | repeated step pos count =>
      have hstep := (h.step (o.each count) step).flatMap_eq
      simp only [Scheme.chunks, Scheme.runs]
      rw [List.flatMap_replicate, hstep, List.flatten_replicate_replicate]
    | printChar =>
      rw [Scheme.chunks, List.flatMap_singleton]
      exact h.printChar.flatMap_eq
    | readChar =>
      rw [Scheme.chunks, List.flatMap_singleton]
      exact h.readChar.flatMap_eq
    | loop => cases hs
    | foreign | absent => cases hk
  · intro n
    rw [Scheme.enter_chunks, List.flatMap_singleton, (h.loopEnter n).flatMap_eq]
    rfl
  · intro n
    rw [Scheme.exit_chunks, List.flatMap_singleton, (h.loopExit n).flatMap_eq]
    rfl

theorem isLines_chunks (h : Decodes f o.target shown) {p : Program}
    (hknown : Stmt.Everywhere (·.isKnown) p.body) (n : Nat) : ∀ c ∈ p.chunksAfter n o, IsLines c :=
  Program.forall_mem_chunks h.prologue.isLines h.epilogue.isLines
    (fun k s => (h.step k s).isLines) h.printChar.isLines h.readChar.isLines
    (fun n => (h.loopEnter n).isLines) (fun n => (h.loopExit n).isLines) hknown n

/-- The text of a program stands for its commands. -/
theorem commandsOf_text (h : Decodes f o.target shown) {p : Program}
    (hknown : Stmt.Everywhere (·.isKnown) p.body) (n : Nat) :
    commandsOf f (Program.textOf (p.chunksAfter n o)) =
      (Scheme.runs fun step count => o.copies count * shown step (o.each count)).block n p.body := by
  rw [commandsOf, Machine.splitOn_textOf (h.isLines_chunks hknown n), List.flatMap_append, List.flatMap_singleton, h.empty,
    List.append_nil, List.flatMap_map, List.flatten_eq_flatMap, List.flatMap_assoc, Program.chunksAfter,
    List.flatMap_append, List.flatMap_cons, List.flatMap_singleton]
  refine (congrArg₂ _ (congrArg₂ _ h.prologue.flatMap_eq (h.flatMap_block hknown n))
    h.epilogue.flatMap_eq).trans ?_
  rw [List.nil_append, List.append_nil]

end Decodes

end LineDecoder

/-! ## The lines of the targets -/

namespace Assembly

/-- The beginning of the line of a step, before its count. -/
def stemText : Step → String
  | .moveRight => "        addq    $"
  | .moveLeft => "        subq    $"
  | .increment => "        addb    $"
  | .decrement => "        subb    $"

/-- The end of the line of a step, after its count. -/
def operandText : Step → String
  | .moveRight | .moveLeft => ", %rbx"
  | .increment | .decrement => ", (%rbx)"

/-- The count on the line of a step. -/
def shown : Step → Nat → Nat
  | .moveRight, k | .moveLeft, k => k
  | .increment, k | .decrement, k => k % 256

/-- An instruction whose operands hold a number. -/
theorem toList_inst {stem : String} (hstem : stem ≠ "") (op : String) (k : Nat) (rest : String) :
    (inst op (stem ++ toString k ++ rest)).toList = numbered
      ("        " ++ op ++ String.ofList (List.replicate (7 - op.length) ' ') ++ " " ++ stem) k rest := by
  rw [inst, if_neg (by simp [hstem]), numbered]
  simp only [String.toList_append, List.append_assoc]

theorem toList_step (k : Nat) (s : Step) :
    (step s k).map String.toList = [numbered (stemText s) (shown s k) (operandText s)] := by
  have hstem : "$" ≠ "" := by decide
  cases s with
  | moveRight => exact congrArg ([·]) (toList_inst hstem "addq" k ", %rbx")
  | moveLeft => exact congrArg ([·]) (toList_inst hstem "subq" k ", %rbx")
  | increment =>
    rw [step, Machine.wrap_natCast]
    exact congrArg ([·]) (toList_inst hstem "addb" (k % 256) ", (%rbx)")
  | decrement =>
    rw [step, Machine.wrap_natCast]
    exact congrArg ([·]) (toList_inst hstem "subb" (k % 256) ", (%rbx)")

theorem counted?_step (s : Step) (text : List Char) : counted? ((stemText s).toList ++ text) =
    (count? [", %rbx", ", (%rbx)"] text).map (s, ·) := by
  cases s <;> rfl

theorem commandsOfLine_step (s : Step) (k : Nat) :
    commandsOfLine (numbered (stemText s) k (operandText s)) = List.replicate k s.command := by
  have hcount : count? [", %rbx", ", (%rbx)"] ((toString k).toList ++ (operandText s).toList) = some k :=
    count?_toString (by cases s <;> decide) (by cases s <;> decide) k
  rw [commandsOfLine, numbered, counted?_step, hcount]
  rfl

theorem gives_step (k : Nat) (s : Step) :
    Gives commandsOfLine (step s k) (List.replicate (shown s k) s.command) := by
  refine .of_lines (toList_step k s) (List.cons_ne_nil _ _) ?_ ?_
  · rw [List.forall_mem_singleton]
    exact not_mem_numbered (by cases s <;> decide) _
  · rw [List.flatMap_singleton, commandsOfLine_step]

/-- The line of a jump. -/
theorem toList_jump (op : String) {symbol stem : String} {k : Nat} (h : symbol = stem ++ toString k)
    (hstem : stem ≠ "") : (inst op symbol).toList = numbered
      ("        " ++ op ++ String.ofList (List.replicate (7 - op.length) ' ') ++ " " ++ stem) k "" := by
  rw [← toList_inst hstem op k "", String.append_empty, h]

/-- The line of a label. -/
theorem toList_label {symbol stem : String} {k : Nat} (h : symbol = stem ++ toString k) :
    (symbol ++ ":").toList = numbered stem k ":" := by
  rw [h, String.toList_append, String.toList_append, numbered, List.append_assoc]

/-- A label has no blank in it, so it is none of the lines that count. -/
theorem commandsOfLine_label {stem : String} {k : Nat} (hcounted : counted? (numbered stem k ":") = none)
    (hstem : ' ' ∉ stem.toList ++ ":".toList) : commandsOfLine (numbered stem k ":") = [] := by
  have hblank : ∀ {word : List Char}, ' ' ∈ word → ¬word <:+: numbered stem k ":" := fun h =>
    not_infix_numbered ' ' h ⟨hstem, rfl⟩ k
  rw [commandsOfLine, hcounted]
  simp only
  rw [if_neg (hblank (by decide)), if_neg (hblank (by decide)), if_neg (hblank (by decide)),
    if_neg (hblank (by decide))]

theorem commandsOfLine_enter (k : Nat) :
    commandsOfLine (numbered "        jmp     .loop_condition_" k "") = [.enter] := by
  have hcounted : counted? (numbered "        jmp     .loop_condition_" k "") = none := rfl
  rw [commandsOfLine, hcounted]
  simp only
  rw [if_neg (not_infix_numbered 'a' (by decide) (by decide) k),
    if_neg (not_infix_numbered 'a' (by decide) (by decide) k), if_pos (infix_numbered (by decide) k "")]

theorem commandsOfLine_leave (k : Nat) :
    commandsOfLine (numbered "        jne     .loop_body_" k "") = [.leave] := by
  have hcounted : counted? (numbered "        jne     .loop_body_" k "") = none := rfl
  rw [commandsOfLine, hcounted]
  simp only
  rw [if_neg (not_infix_numbered 'a' (by decide) (by decide) k),
    if_neg (not_infix_numbered 'a' (by decide) (by decide) k),
    if_neg (not_infix_numbered 'm' (by decide) (by decide) k), if_pos (infix_numbered (by decide) k "")]

theorem gives_loopEnter (n : Nat) :
    Gives commandsOfLine (target.loopEnter (.numbered n)) [.enter] := by
  have hjmp := toList_jump "jmp" (LoopLabels.conditionSymbol_eq n) (by decide)
  have hlabel := toList_label (LoopLabels.bodySymbol_eq n)
  have hlines : (target.loopEnter (.numbered n)).map String.toList =
      [numbered "        jmp     .loop_condition_" (n + 1) "", numbered ".loop_body_" n ":"] :=
    congrArg₂ ([·, ·]) hjmp hlabel
  refine .of_lines hlines (List.cons_ne_nil _ _) ?_ ?_
  · rw [List.forall_mem_cons, List.forall_mem_singleton]
    exact ⟨not_mem_numbered (by decide) _, not_mem_numbered (by decide) _⟩
  · rw [List.flatMap_cons, List.flatMap_singleton, commandsOfLine_enter,
      commandsOfLine_label rfl (by decide)]
    rfl

theorem gives_loopExit (n : Nat) :
    Gives commandsOfLine (target.loopExit (.numbered n)) [.leave] := by
  have hlabel := toList_label (LoopLabels.conditionSymbol_eq n)
  have hjne := toList_jump "jne" (LoopLabels.bodySymbol_eq n) (by decide)
  have hlines : (target.loopExit (.numbered n)).map String.toList =
      [numbered ".loop_condition_" (n + 1) ":", "        cmpb    $0, (%rbx)".toList,
        numbered "        jne     .loop_body_" n ""] :=
    congr (congrArg₂ ([·, ·, ·]) hlabel rfl) hjne
  have htest : commandsOfLine "        cmpb    $0, (%rbx)".toList = [] := by decide +kernel
  refine .of_lines hlines (List.cons_ne_nil _ _) ?_ ?_
  · rw [List.forall_mem_cons, List.forall_mem_cons, List.forall_mem_singleton]
    exact ⟨not_mem_numbered (by decide) _, by decide, not_mem_numbered (by decide) _⟩
  · rw [List.flatMap_cons, List.flatMap_cons, List.flatMap_singleton, commandsOfLine_leave, htest,
      commandsOfLine_label rfl (by decide)]
    rfl

/-- The chunks of assembly, whose cell changes show their counts reduced. -/
theorem decodes : Decodes commandsOfLine target shown where
  empty := by decide +kernel
  prologue := by decide +kernel
  epilogue := by decide +kernel
  step := gives_step
  printChar := by decide +kernel
  readChar := by decide +kernel
  loopEnter := gives_loopEnter
  loopExit := gives_loopExit

end Assembly

namespace C

/-- A line has only one of the beginnings. -/
theorem dropPrefix?_beginning (s t : Step) (text : List Char) :
    ((beginning s).toList ++ text).dropPrefix? (beginning t).toList = if s = t then some text else none := by
  cases s <;> cases t <;> simp [beginning, List.dropPrefix?]

theorem counted?_step (s : Step) (text : List Char) :
    counted? ((stemText s).toList ++ text) = (count? [";"] text).map (s, ·) := by
  have hindent : indented? ((stemText s).toList ++ text) = some ((beginning s).toList ++ text) := by
    cases s <;> rfl
  rw [counted?, hindent]
  simp only [Option.bind_eq_bind, Option.bind_some, dropPrefix?_beginning, List.findSome?]
  cases s <;> simp <;> cases count? [";"] text <;> rfl

theorem map_toList_step (k : Nat) (s : Step) :
    (step s k).map String.toList = [numbered (stemText s) k ";"] := by
  cases s <;>
    simp only [step, line, List.map_singleton, String.toList_append, numbered, List.append_assoc] <;>
    rfl

theorem counted?_numbered (k : Nat) (s : Step) :
    counted? (numbered (stemText s) k ";") = some (s, k) := by
  have hcount : count? [";"] ((toString k).toList ++ ";".toList) = some k :=
    count?_toString (by decide) (by decide) k
  rw [numbered, counted?_step, hcount]
  rfl

theorem gives_step (k : Nat) (s : Step) :
    Gives commandsOfLine (step s k) (List.replicate k s.command) := by
  refine .of_lines (map_toList_step k s) (List.cons_ne_nil _ _) ?_ ?_
  · rw [List.forall_mem_singleton]
    exact not_mem_numbered (by cases s <;> decide) k
  · rw [List.flatMap_singleton, commandsOfLine, counted?_numbered]

/-- The line before the body of a loop. -/
def enterText : String := "    while (*ptr) \x7b /* loop_body_"

/-- The line after the body of a loop. -/
def leaveText : String := "    \x7d /* loop_condition_"

theorem map_toList_loopEnter (n : Nat) :
    (target.loopEnter (.numbered n)).map String.toList = [numbered enterText n " */"] := by
  simp only [target, line, LoopLabels.numbered, List.map_singleton, String.toList_append, numbered,
    List.append_assoc]
  rfl

theorem map_toList_loopExit (n : Nat) :
    (target.loopExit (.numbered n)).map String.toList = [numbered leaveText (n + 1) " */"] := by
  simp only [target, line, LoopLabels.numbered, List.map_singleton, String.toList_append, numbered,
    List.append_assoc]
  rfl

theorem gives_loopEnter (n : Nat) :
    Gives commandsOfLine (target.loopEnter (.numbered n)) [.enter] := by
  have hcounted : counted? (numbered enterText n " */") = none := rfl
  refine .of_lines (map_toList_loopEnter n) (List.cons_ne_nil _ _) ?_ ?_
  · rw [List.forall_mem_singleton]
    exact not_mem_numbered (by decide) n
  · rw [List.flatMap_singleton, commandsOfLine, hcounted]
    simp only
    rw [if_neg (not_infix_numbered 'u' (by decide) (by decide) n),
      if_neg (not_infix_numbered 'g' (by decide) (by decide) n),
      if_pos (infix_numbered (by decide) n " */")]

theorem gives_loopExit (n : Nat) :
    Gives commandsOfLine (target.loopExit (.numbered n)) [.leave] := by
  have hcounted : counted? (numbered leaveText (n + 1) " */") = none := rfl
  have hbrace : "\x7d /*".toList <+: (numbered leaveText (n + 1) " */").dropWhile isBlank :=
    ⟨_, rfl⟩
  refine .of_lines (map_toList_loopExit n) (List.cons_ne_nil _ _) ?_ ?_
  · rw [List.forall_mem_singleton]
    exact not_mem_numbered (by decide) (n + 1)
  · rw [List.flatMap_singleton, commandsOfLine, hcounted]
    simp only
    rw [if_neg (not_infix_numbered 'u' (by decide) (by decide) _),
      if_neg (not_infix_numbered 'g' (by decide) (by decide) _),
      if_neg (not_infix_numbered 'w' (by decide) (by decide) _), if_pos hbrace]

/-- The chunks of C, which show all counts as they are. -/
theorem decodes : Decodes commandsOfLine target fun _ k => k where
  empty := by decide +kernel
  prologue := by decide +kernel
  epilogue := by decide +kernel
  step := gives_step
  printChar := by decide +kernel
  readChar := by decide +kernel
  loopEnter := gives_loopEnter
  loopExit := gives_loopExit

end C

/-! ## Reduced runs -/

namespace Command

/-- Whether the command changes a cell by one. -/
def isChange (c : Command) : Bool :=
  c = .add || c = .sub

/-- Whether two neighbours belong to one run of changes. -/
def sameChange (a b : Command) : Bool :=
  a = b && a.isChange

/-- The commands where each maximal run of `k` times `+`, or of `k` times `-`, has only
    the first `k % 256` of its commands. -/
def wrapRuns (cs : List Command) : List Command :=
  (cs.splitBy sameChange).flatMap fun run => run.take (run.length % 256)

variable {c : Command} {cs : List Command}

/-- A command that changes no cell is kept. -/
theorem wrapRuns_cons (hc : c.isChange = false) : wrapRuns (c :: cs) = c :: wrapRuns cs := by
  have hsplit : (c :: cs).splitBy sameChange = [c].splitBy sameChange ++ cs.splitBy sameChange := by
    refine List.splitBy_append (l := [c]) fun x hx y _ => ?_
    obtain rfl : c = x := Option.some.inj hx
    simp [sameChange, hc]
  rw [wrapRuns, hsplit]
  rfl

/-- A run of changes that goes no further is reduced. -/
theorem wrapRuns_replicate (hc : c.isChange) (hcs : cs.head? ≠ some c) {k : Nat} (hk : 1 ≤ k) :
    wrapRuns (List.replicate k c ++ cs) = List.replicate (k % 256) c ++ wrapRuns cs := by
  have hrun : (List.replicate k c).splitBy sameChange = [List.replicate k c] := by
    refine List.splitBy_of_isChain ?_ (List.isChain_replicate_of_rel k ?_)
    · rw [ne_eq, List.replicate_eq_nil_iff]
      exact Nat.ne_of_gt hk
    · simp [sameChange, hc]
  have hsplit : (List.replicate k c ++ cs).splitBy sameChange =
      List.replicate k c :: cs.splitBy sameChange := by
    rw [List.splitBy_append, hrun, List.singleton_append]
    intro x hx y hy
    obtain rfl : x = c := List.eq_of_mem_replicate (List.mem_of_getLast? hx)
    have hne : x ≠ y := by
      rintro rfl
      exact hcs hy
    simp [sameChange, hne]
  rw [wrapRuns, hsplit, List.flatMap_cons, List.length_replicate, List.take_replicate,
    Nat.min_eq_left (Nat.mod_le k 256)]
  rfl

/-- A run of other commands is kept. -/
theorem wrapRuns_replicate_append (hc : c.isChange = false) (k : Nat) :
    wrapRuns (List.replicate k c ++ cs) = List.replicate k c ++ wrapRuns cs := by
  induction k with
  | zero => rfl
  | succ k ih => rw [List.replicate_succ, List.cons_append, wrapRuns_cons hc, ih, List.cons_append]

end Command

/-- A run of a tree that is followed by something else is reduced as assembly shows
    it. -/
theorem Step.wrapRuns_replicate (step : Step) {count : Nat} (hcount : 1 ≤ count) {cs : List Command}
    (hcs : cs.head? ≠ some step.command) : Command.wrapRuns (List.replicate count step.command ++ cs) =
      List.replicate (Assembly.shown step count) step.command ++ Command.wrapRuns cs := by
  cases step with
  | moveRight | moveLeft => exact Command.wrapRuns_replicate_append rfl count
  | increment | decrement => exact Command.wrapRuns_replicate rfl hcs hcount

/-- The runs of changes in the commands of a canonical tree are its own. The commands
    that follow the tree must not go on with its last run. -/
theorem Stmt.wrapRuns_commandsList {body : List Stmt} (hbody : Canonical body) {after : List Command}
    (hafter : Closes after) (n : Nat) : Command.wrapRuns (commandsList body ++ after) =
      (Scheme.runs Assembly.shown).block n body ++ Command.wrapRuns after := by
  induction body using listInduction generalizing after n with
  | nil => rfl
  | leaf s rest hs ih =>
    have hrest : Canonical rest := ⟨hbody.1.tail, hbody.2.tail⟩
    rw [commandsList, List.append_assoc, Scheme.block_leaf hs, List.append_assoc, ← ih hrest hafter n]
    cases s with
    | repeated step pos count =>
      have hcount : 1 ≤ count := by simpa [isCounted] using hbody.1.head.2
      exact step.wrapRuns_replicate hcount (head?_after_run hrest.1 hbody.2.1 hafter)
    | printChar | readChar => exact Command.wrapRuns_cons rfl
    | loop => cases hs
    | foreign | absent => cases hbody.1.head.1
  | loop pos body close rest ihbody ih =>
    obtain ⟨-, hinner, hrest⟩ := (everywhere_loop ..).1 hbody.1
    -- The bracket closes the body, and no bracket belongs to a run.
    have hcommands : commandsList (.loop pos body close :: rest) ++ after =
        .enter :: (commandsList body ++ .leave :: (commandsList rest ++ after)) := by
      simp [commandsList, commands]
    rw [hcommands, Command.wrapRuns_cons rfl, ihbody ⟨hinner, hbody.2.body⟩ (by simp [Closes]) (n + 2),
      Command.wrapRuns_cons rfl, ih ⟨hrest, hbody.2.tail⟩ hafter (n + 2 + 2 * loopCountList body),
      Scheme.block_loop]
    simp [Scheme.runs]

/-! ## The text of a source -/

namespace Program

variable {p : Program}

/-- C shows all steps of a run, one by one or at once. -/
theorem commandsOf_c (hknown : Stmt.Everywhere (·.isKnown) p.body) (n : Nat) (optimized : Bool) :
    commandsOf C.commandsOfLine (textOf (p.chunksAfter n (C.options optimized))) =
      Stmt.commandsList p.body := by
  have hruns : (fun (_ : Step) count =>
      (C.options optimized).copies count * (C.options optimized).each count) = fun _ count => count := by
    funext step count
    cases optimized with
    | false => exact Nat.mul_one count
    | true => exact Nat.one_mul count
  rw [C.decodes.commandsOf_text (o := C.options optimized) hknown n, hruns, Scheme.runs_count,
    Scheme.block_commands]

/-- A single step is never reduced. -/
theorem commandsOf_assembly_false (hknown : Stmt.Everywhere (·.isKnown) p.body) (n : Nat) :
    commandsOf Assembly.commandsOfLine (textOf (p.chunksAfter n (Machine.options false))) =
      Stmt.commandsList p.body := by
  have hruns : (fun step count => (Machine.options false).copies count *
      Assembly.shown step ((Machine.options false).each count)) = fun _ count => count := by
    funext step count
    cases step <;> exact Nat.mul_one count
  rw [Assembly.decodes.commandsOf_text (o := Machine.options false) hknown n, hruns, Scheme.runs_count,
    Scheme.block_commands]

/-- The run of a leaf is a maximal one, and is reduced. -/
theorem commandsOf_assembly_true (hbody : Stmt.Canonical p.body) (n : Nat) :
    commandsOf Assembly.commandsOfLine (textOf (p.chunksAfter n (Machine.options true))) =
      Command.wrapRuns (Stmt.commandsList p.body) := by
  have hknown : Stmt.Everywhere (·.isKnown) p.body := hbody.1.imp fun s hs => hs.1
  have hruns : (fun step count => (Machine.options true).copies count *
      Assembly.shown step ((Machine.options true).each count)) = Assembly.shown := by
    funext step count
    exact Nat.one_mul _
  have hafter : Stmt.Closes [] := by simp [Stmt.Closes]
  have hwrap := Stmt.wrapRuns_commandsList hbody hafter n
  rw [List.append_nil] at hwrap
  rw [Assembly.decodes.commandsOf_text (o := Machine.options true) hknown n, hruns, hwrap]
  exact (List.append_nil _).symm

/-- With labels from a counter the text of a source can be decoded. C gives the
    command bytes of the source, optimised or not, and so does assembly that is not
    optimised. Optimised assembly gives them with the runs of changes reduced. -/
theorem decode_generate {filename : String} {src : Bytes} {program : Program}
    (h : Program.parse (.ofBytes filename src) = .ok program) (n : Nat) :
    (∀ optimized, ∃ text, program.generate (C.options optimized) (.counter n) = .ok text ∧
      C.decode text = src.commandBytes) ∧
    (∃ text, program.generate (Machine.options false) (.counter n) = .ok text ∧
      Assembly.decode text = src.commandBytes) ∧
    ∃ text, program.generate (Machine.options true) (.counter n) = .ok text ∧
      Assembly.decode text = (Command.wrapRuns src.commands).map Command.toByte := by
  obtain ⟨hcanonical, hcommands⟩ := canonical_of_parse h
  have hknown : Stmt.Everywhere (·.isKnown) program.body := hcanonical.1.imp fun s hs => hs.1
  refine ⟨fun optimized => ⟨_, generate_counter hknown _ n, ?_⟩, ⟨_, generate_counter hknown _ n, ?_⟩,
    _, generate_counter hknown _ n, ?_⟩
  · rw [C.decode, commandsOf_c hknown, hcommands, Bytes.map_toByte_commands]
  · rw [Assembly.decode, commandsOf_assembly_false hknown, hcommands, Bytes.map_toByte_commands]
  · rw [Assembly.decode, commandsOf_assembly_true hcanonical, hcommands]

/-- A run of 258 times `+`, with a comment in it, before the loop of `[->.,<]--`: only
    optimised assembly reduces it, to two. -/
theorem decode_generate_long :
    let rest : Bytes := [0x5B, 0x2D, 0x3E, 0x2E, 0x2C, 0x3C, 0x5D, 0x2D, 0x2D]
    let src : Bytes := List.replicate 200 0x2B ++ 0x78 :: List.replicate 58 0x2B ++ rest
    ∃ program, Program.parse (.ofBytes "r.bf" src) = .ok program ∧
      (∃ text, program.generate (C.options true) = .ok text ∧
        C.decode text = List.replicate 258 0x2B ++ rest) ∧
      (∃ text, program.generate (Machine.options false) = .ok text ∧
        Assembly.decode text = List.replicate 258 0x2B ++ rest) ∧
      ∃ text, program.generate (Machine.options true) = .ok text ∧
        Assembly.decode text = [0x2B, 0x2B] ++ rest := by
  intro rest src
  have hok : (Program.parse (.ofBytes "r.bf" src)).isOk := by decide +kernel
  obtain ⟨program, hparse⟩ : ∃ program, Program.parse (.ofBytes "r.bf" src) = .ok program := by
    cases hparse : Program.parse (.ofBytes "r.bf" src) with
    | ok program => exact ⟨program, rfl⟩
    | error e =>
      rw [hparse] at hok
      cases hok
  have hbytes : src.commandBytes = List.replicate 258 0x2B ++ rest := by decide +kernel
  have hwrapped : (Command.wrapRuns src.commands).map Command.toByte = [0x2B, 0x2B] ++ rest := by
    decide +kernel
  obtain ⟨hc, hfalse, htrue⟩ := decode_generate hparse 0
  rw [hbytes] at hc hfalse
  rw [hwrapped] at htrue
  exact ⟨program, hparse, hc true, hfalse, htrue⟩

end Program

end TapeCompiler
