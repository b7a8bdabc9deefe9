import TapeCompiler.Proofs.Completion
import TapeCompiler.Session.Entry

/-!
# Reading a script

A script is read entry by entry, until the input has ended (`Session.Readings`). The
reader keeps the text of an entry only, and decides from that whether a line is the
first of its entry. That is sound because only an open loop makes it go on, so the text
that it keeps is never empty between two lines.

  * `Session.IsEntry`: a block of lines is an entry if its text asks for no more lines,
    and that of no shorter block does.
  * `Session.read_cases`: what one reading takes off the script, and what it gives.
  * `Session.isCommand_append_line`: while a loop is open, another line does not make a
    command of the text, so a command is always an entry of one line.
  * `Session.readings_script`: a whole script is cut into the lines of entries, the
    lines dropped by interrupts and the lines left at the end, and nothing else.
-/

namespace TapeCompiler

/-! ## Words -/

namespace Blank

theorem wordsOnto_append_acc (acc : List (List Glyph)) (word gs : List Glyph) :
    wordsOnto acc word gs = wordsOnto [] word gs ++ acc := by
  induction gs generalizing acc word with
  | nil =>
    rw [wordsOnto, wordsOnto]
    split <;> rfl
  | cons g gs ih =>
    rw [wordsOnto, wordsOnto]
    split
    · rw [ih, ih (if word.isEmpty then [] else [word.reverse])]
      split <;> simp
    · exact ih acc (g :: word)

/-- A blank ends the word before it. -/
theorem wordsOnto_append_blank {g : Glyph} (hg : g.isBlank) (acc : List (List Glyph))
    (word gs hs : List Glyph) :
    wordsOnto acc word (gs ++ g :: hs) = wordsOnto (wordsOnto acc word gs) [] hs := by
  induction gs generalizing acc word with
  | nil => rw [List.nil_append, wordsOnto.eq_2, if_pos hg, wordsOnto.eq_1]
  | cons g' gs ih =>
    rw [List.cons_append, wordsOnto, wordsOnto]
    split <;> exact ih ..

theorem wordsOnto_ne_nil {word gs : List Glyph} (h : word ≠ [] ∨ ∃ g ∈ gs, g.isBlank = false) :
    wordsOnto [] word gs ≠ [] := by
  induction gs generalizing word with
  | nil =>
    obtain hword | ⟨g, hg, -⟩ := h
    · simp [wordsOnto, hword]
    · cases hg
  | cons g gs ih =>
    rw [wordsOnto]
    split
    case isTrue hblank =>
      by_cases hword : word = []
      · -- The word that is there is further on.
        subst hword
        obtain hword | ⟨g', hmem, hg'⟩ := h
        · exact absurd rfl hword
        · refine ih (.inr ⟨g', (List.mem_cons.1 hmem).resolve_left ?_, hg'⟩)
          rintro rfl
          cases hblank.symm.trans hg'
      · rw [wordsOnto_append_acc]
        simp [hword]
    case isFalse => exact ih (.inl (List.cons_ne_nil _ _))

/-- A line feed ends a word, whatever the bytes before it are. -/
theorem words_append_newline (xs ys : Bytes) :
    words (xs ++ '\n'.toUInt8 :: ys) = words xs ++ words ys := by
  have hfirst : ∀ rest, Glyph.decode ('\n'.toUInt8 :: rest) = .char '\n' :: Glyph.decode rest := by
    intro rest
    have hwidth := Glyph.width_first_ascii (a := '\n'.toUInt8) (by decide) rest
    rw [Glyph.decode_cons, hwidth, Glyph.first_ascii (by decide)]
    rfl
  rw [words, words, words, Glyph.decode_append_ascii (by decide), hfirst,
    wordsOnto_append_blank rfl, wordsOnto_append_acc, List.reverse_append, List.map_append]

/-- A text with an opening bracket has a word. -/
theorem words_ne_nil {text : Bytes} (h : 0x5B ∈ text) : words text ≠ [] := by
  obtain ⟨xs, ys, rfl⟩ := List.append_of_mem h
  have hmem : Glyph.char '[' ∈ Glyph.decode (xs ++ 0x5B :: ys) := by
    rw [Glyph.decode_append_ascii (by decide), Glyph.decode_cons, Glyph.first_ascii (by decide)]
    exact List.mem_append_right _ List.mem_cons_self
  have hwords : wordsOnto [] [] (Glyph.decode (xs ++ 0x5B :: ys)) ≠ [] :=
    wordsOnto_ne_nil (.inr ⟨_, hmem, by decide⟩)
  simpa [words] using hwords

end Blank

namespace Session

/-! ## Texts that ask for more lines -/

/-- Parsing the text fails, and with an error that more text could mend. -/
def FailsIncomplete (text : Bytes) : Prop :=
  ∃ e, Program.parse (.ofBytes "" text) = .error e ∧ e.isIncomplete

/-- The reader's probe is about parsing the text. -/
theorem isIncomplete_iff {text : Bytes} : isIncomplete text ↔ FailsIncomplete text := by
  rw [isIncomplete, FailsIncomplete]
  cases Program.parse (.ofBytes "" text) with
  | ok program => simp
  | error e => simp

/-- A text that could be completed has an opening bracket. -/
theorem FailsIncomplete.mem {text : Bytes} (h : FailsIncomplete text) : 0x5B ∈ text := by
  obtain ⟨e, herror, he⟩ := h
  exact ((Program.isIncomplete_iff_leavesOpen herror).1 he).mem

/-- Whether a word is a command does not depend on its argument. -/
theorem isSome_ofWord? (word arg arg' : Bytes) :
    (Command.ofWord? word arg).isSome = (Command.ofWord? word arg').isSome := by
  unfold Command.ofWord?
  split_ifs <;> rfl

/-- The first word of a text with an open loop is there already, so another line does not
    make a command of it. -/
theorem isCommand_append_line {text : Bytes} (h : FailsIncomplete text) (line : Bytes) :
    isCommand (text ++ '\n'.toUInt8 :: line) = isCommand text := by
  have hwords := Blank.words_ne_nil h.mem
  rw [isCommand, isCommand, Command.ofEntry?, Command.ofEntry?, Blank.words_append_newline]
  cases hfirst : Blank.words text with
  | nil => exact absurd hfirst hwords
  | cons word args => exact isSome_ofWord? ..

/-- The text of a block of lines: the lines, with a line feed between each two. -/
def joined (block : List Bytes) : Bytes :=
  ['\n'.toUInt8].intercalate block

/-- The text asks for no more lines: it is a command, or it does not fail to parse as
    incomplete. -/
def AsksNoMore (text : Bytes) : Prop :=
  isCommand text = true ∨ ¬FailsIncomplete text

/-- The lines are those of an entry that has not ended: as many of the first of them as
    you like are no command, and fail to parse as incomplete. -/
def Unfinished (block : List Bytes) : Prop :=
  ∀ lines, lines <+: block → lines ≠ [] →
    isCommand (joined lines) = false ∧ FailsIncomplete (joined lines)

/-- The lines are those of an entry: their text asks for no more, and that of fewer of
    them does. -/
structure IsEntry (block : List Bytes) : Prop where
  nonempty : block ≠ []
  asksNoMore : AsksNoMore (joined block)
  shortest : ∀ lines, lines <+: block → lines ≠ [] → AsksNoMore (joined lines) → lines = block

variable {block : List Bytes} {line : Bytes}

theorem isFinished_iff {text : Bytes} : isFinished text = true ↔ AsksNoMore text := by
  simp [isFinished, AsksNoMore, ← isIncomplete_iff]

theorem isFinished_eq_false_iff {text : Bytes} :
    isFinished text = false ↔ isCommand text = false ∧ FailsIncomplete text := by
  simp [isFinished, ← isIncomplete_iff]

theorem joined_cons (h : block ≠ []) (line : Bytes) :
    joined (line :: block) = line ++ '\n'.toUInt8 :: joined block := by
  rw [joined, List.intercalate_cons_of_ne_nil h, List.append_assoc]
  rfl

theorem joined_concat (h : block ≠ []) (line : Bytes) :
    joined (block ++ [line]) = joined block ++ '\n'.toUInt8 :: line := by
  induction block with
  | nil => exact absurd rfl h
  | cons first block ih =>
    rw [List.cons_append, joined_cons (by simp)]
    by_cases hblock : block = []
    · subst hblock
      simp [joined]
    · rw [ih hblock, joined_cons hblock, List.append_assoc, List.cons_append]

theorem unfinished_nil : Unfinished [] := by
  intro lines hlines hne
  exact absurd (List.prefix_nil.1 hlines) hne

namespace Unfinished

/-- The text between two lines of an entry is not empty. -/
theorem joined_eq_nil_iff (h : Unfinished block) : joined block = [] ↔ block = [] := by
  constructor
  · intro hempty
    by_contra hne
    obtain ⟨-, hopen⟩ := h block (List.prefix_refl block) hne
    rw [hempty] at hopen
    cases hopen.mem
  · rintro rfl
    rfl

/-- So its emptiness tells whether the next line is the first. -/
theorem extend_joined (h : Unfinished block) (line : Bytes) :
    extend (joined block) line = joined (block ++ [line]) := by
  by_cases hblock : block = []
  · subst hblock
    simp [extend, joined]
  · rw [extend, if_neg, joined_concat hblock]
    rwa [List.isEmpty_iff, h.joined_eq_nil_iff]

theorem concat (h : Unfinished block) (hline : isFinished (joined (block ++ [line])) = false) :
    Unfinished (block ++ [line]) := by
  intro lines hlines hne
  rcases List.prefix_concat_iff.1 hlines with rfl | hlines
  · exact isFinished_eq_false_iff.1 hline
  · exact h lines hlines hne

/-- A line after which no more is asked for makes the block an entry. -/
theorem isEntry_concat (h : Unfinished block)
    (hline : isFinished (joined (block ++ [line])) = true) : IsEntry (block ++ [line]) where
  nonempty := by simp
  asksNoMore := isFinished_iff.1 hline
  shortest := by
    intro lines hlines hne hends
    refine (List.prefix_concat_iff.1 hlines).resolve_right fun hlines => ?_
    have hunfinished := isFinished_eq_false_iff.2 (h lines hlines hne)
    rw [isFinished_iff.2 hends] at hunfinished
    cases hunfinished

/-- A later line of an entry makes no command of it. -/
theorem isCommand_concat (h : Unfinished block) (hblock : block ≠ []) (line : Bytes) :
    isCommand (joined (block ++ [line])) = false := by
  obtain ⟨hcommand, hopen⟩ := h block (List.prefix_refl block) hblock
  rw [joined_concat hblock, isCommand_append_line hopen, hcommand]

end Unfinished

/-! ## One reading -/

/-- The prompts of an entry for which `n` prompts are shown. -/
def promptsOf : Nat → List String
  | 0 => []
  | n + 1 => mainPrompt :: List.replicate n continuationPrompt

theorem promptsOf_concat (h : Unfinished block) :
    promptsOf (block.length + 1) = promptsOf block.length ++ [promptFor (joined block)] := by
  by_cases hblock : block = []
  · subst hblock
    rfl
  · have hprompt : promptFor (joined block) = continuationPrompt := by
      rw [promptFor, if_neg]
      rwa [List.isEmpty_iff, h.joined_eq_nil_iff]
    obtain ⟨n, hn⟩ := Nat.exists_eq_succ_of_ne_zero (mt List.length_eq_zero_iff.1 hblock)
    rw [hprompt, hn, promptsOf, promptsOf, List.replicate_succ', List.cons_append]

/-- What a reading takes off a script that goes on: the lines of an entry, or lines and
    the interrupt that drops them. -/
inductive Part where
  | entry (block : List Bytes)
  | interrupted (block : List Bytes)

namespace Part

/-- The piece of the script. -/
def answers : Part → List Answer
  | entry block => block.map .line
  | interrupted block => block.map .line ++ [.interrupt]

/-- What is read. -/
def text : Part → Bytes
  | entry block => joined block
  | interrupted _ => []

/-- The prompts that are shown, one for each answer. -/
def prompts (p : Part) : List String :=
  promptsOf p.answers.length

/-- The lines are as the reader takes them. An entry of several lines is no command. -/
def Sound : Part → Prop
  | entry block => IsEntry block ∧ (2 ≤ block.length → isCommand (joined block) = false)
  | interrupted block => Unfinished block

theorem length_answers_pos {p : Part} (h : p.Sound) : 0 < p.answers.length := by
  cases p with
  | entry block => simpa [answers, List.length_pos_iff] using h.1.nonempty
  | interrupted block => simp [answers]

end Part

/-- What reading on gives, when the lines `block` have been read: they end up in a part
    of the script, or the input ends. -/
theorem readOnto_cases (h : Unfinished block) (script : List Answer) :
    (∃ (part : Part) (rest : List Answer), block.map .line ++ script = part.answers ++ rest ∧ part.Sound ∧
      readOnto (joined block) (promptsOf block.length).reverse script =
        ⟨some part.text, part.prompts, rest⟩) ∨
    (∃ left : List Bytes, block.map .line ++ script = left.map .line ∧ Unfinished left ∧
      readOnto (joined block) (promptsOf block.length).reverse script =
        ⟨none, promptsOf (left.length + 1), []⟩) := by
  have hshown : promptFor (joined block) :: (promptsOf block.length).reverse =
      (promptsOf (block.length + 1)).reverse := by
    rw [promptsOf_concat h, List.reverse_concat]
  -- By induction on what is left of the script; the lines taken off it go to `block`, which
  -- stays unfinished as long as the reader goes on.
  induction script generalizing block with
  | nil =>
    refine .inr ⟨block, List.append_nil _, h, ?_⟩
    rw [readOnto, hshown, List.reverse_reverse]
  | cons answer script ih =>
    cases answer with
    | interrupt =>
      refine .inl ⟨.interrupted block, script, by simp [Part.answers], h, ?_⟩
      rw [readOnto, hshown, List.reverse_reverse]
      simp [Part.text, Part.prompts, Part.answers]
    | line line =>
      have happend : block.map Answer.line ++ .line line :: script =
          (block ++ [line]).map .line ++ script := by simp
      rw [readOnto, h.extend_joined, hshown, happend]
      cases hline : isFinished (joined (block ++ [line])) with
      | true =>
        have hcommand : 2 ≤ (block ++ [line]).length → isCommand (joined (block ++ [line])) = false := by
          intro hlength
          refine h.isCommand_concat ?_ line
          rintro rfl
          exact absurd hlength (by simp)
        refine .inl ⟨.entry (block ++ [line]), script, rfl, ⟨h.isEntry_concat hline, hcommand⟩, ?_⟩
        simp [Part.text, Part.prompts, Part.answers]
      | false =>
        have hmore := h.concat hline
        have hnext := ih hmore (by rw [promptsOf_concat hmore, List.reverse_concat])
        simpa using hnext

/-- What one reading takes off a script, and what it gives. -/
theorem read_cases (script : List Answer) :
    (∃ (part : Part) (rest : List Answer), script = part.answers ++ rest ∧ part.Sound ∧
      read script = ⟨some part.text, part.prompts, rest⟩) ∨
    (∃ left : List Bytes, script = left.map .line ∧ Unfinished left ∧
      read script = ⟨none, promptsOf (left.length + 1), []⟩) :=
  readOnto_cases unfinished_nil script

/-! ## All readings -/

/-- The readings of a script, one after the other, up to the one that finds that the input
    has ended. -/
inductive Readings : List Answer → List Reading → Prop
  | last {script rest : List Answer} {prompts : List String} :
      read script = ⟨none, prompts, rest⟩ → Readings script [⟨none, prompts, rest⟩]
  | more {script rest : List Answer} {entry : Bytes} {prompts : List String}
      {readings : List Reading} : read script = ⟨some entry, prompts, rest⟩ →
      Readings rest readings → Readings script (⟨some entry, prompts, rest⟩ :: readings)

/-- The readings of a script that is made of these parts and the lines `left`. -/
def readingsOf (left : List Bytes) : List Part → List Reading
  | [] => [⟨none, promptsOf (left.length + 1), []⟩]
  | part :: parts =>
    ⟨some part.text, part.prompts, parts.flatMap Part.answers ++ left.map .line⟩ ::
      readingsOf left parts

section

variable {script rest : List Answer} {prompts : List String} {readings : List Reading}

theorem readings_iff_of_none (h : read script = ⟨none, prompts, rest⟩) :
    Readings script readings ↔ readings = [⟨none, prompts, rest⟩] := by
  constructor
  · rintro (hlast | ⟨hmore, -⟩)
    · cases h.symm.trans hlast
      rfl
    · cases h.symm.trans hmore
  · rintro rfl
    exact .last h

theorem readings_iff_of_some {entry : Bytes} (h : read script = ⟨some entry, prompts, rest⟩) :
    Readings script readings ↔
      ∃ later, readings = ⟨some entry, prompts, rest⟩ :: later ∧ Readings rest later := by
  constructor
  · rintro (hlast | ⟨hmore, hlater⟩)
    · cases h.symm.trans hlast
    · cases h.symm.trans hmore
      exact ⟨_, rfl, hlater⟩
  · rintro ⟨later, rfl, hlater⟩
    exact .more h hlater

end

/-- Reading a script until the input has ended takes every line and every interrupt once,
    in order. Each reading that ends with a line gives the text of an entry, which is no
    command if it has several lines; each that ends with an interrupt gives nothing, and
    drops the lines of the entry that it interrupts; the last one finds lines that are no
    entry yet. In each of them the first prompt is the main one, and all others are
    prompts for a later line. -/
theorem readings_script (script : List Answer) : ∃ (parts : List Part) (left : List Bytes),
    script = parts.flatMap Part.answers ++ left.map .line ∧ (∀ part ∈ parts, part.Sound) ∧
      Unfinished left ∧ ∀ readings, Readings script readings ↔ readings = readingsOf left parts := by
  induction h : script.length using Nat.strong_induction_on generalizing script with
  | _ n ih =>
    subst h
    rcases read_cases script with ⟨part, rest, hscript, hsound, hread⟩ | ⟨left, hscript, hleft, hread⟩
    · -- Each part has an answer, so the script that is left is shorter.
      have hlength : rest.length < script.length := by
        have := Part.length_answers_pos hsound
        rw [hscript, List.length_append]
        omega
      obtain ⟨parts, left, hrest, hparts, hleft, hreadings⟩ := ih _ hlength rest rfl
      refine ⟨part :: parts, left, ?_, List.forall_mem_cons.2 ⟨hsound, hparts⟩, hleft, ?_⟩
      · rw [List.flatMap_cons, List.append_assoc, ← hrest, hscript]
      · intro readings
        rw [readings_iff_of_some hread, readingsOf, ← hrest]
        simp [hreadings]
    · refine ⟨[], left, hscript, by simp, hleft, fun readings => ?_⟩
      rw [readings_iff_of_none hread, readingsOf]

end Session

end TapeCompiler
