import TapeCompiler.Proofs.Decoding
import TapeCompiler.Source.Scanner

/-!
# Scanning is filtering bytes

The reader goes through a source character by character, but its tokens can be
said on the bytes alone: one token for each byte that is a command, at the position
of that byte, and the end of the input behind the last byte (`Source.tokens_ofBytes`).
Which bytes are commands is spelled out here (`Command.toByte`); the scanner's table of
characters agrees with that (`Command.ofChar?_ofNat`).

The position of a byte depends on the bytes before it only (`Pos.after`). The line
counts the line feeds, the column the characters since the last of them, both as
32-bit words.

The proof keeps one invariant, `Reader.Stands`: the reader stands behind the bytes
`before` and in front of the bytes `after`, and a glyph ends where `before` does.
-/

namespace TapeCompiler

namespace Command

/-- The byte of a command, as the language spells it. -/
def toByte : Command → UInt8
  | right => 0x3E
  | left => 0x3C
  | add => 0x2B
  | sub => 0x2D
  | put => 0x2E
  | get => 0x2C
  | enter => 0x5B
  | leave => 0x5D

/-- The command a byte spells, if any. -/
def ofByte? (b : UInt8) : Option Command :=
  [right, left, add, sub, put, get, enter, leave].find? (·.toByte == b)

@[simp] theorem ofByte?_toByte (c : Command) : ofByte? c.toByte = some c := by
  cases c <;> rfl

theorem toByte_injective : Function.Injective toByte := by
  intro a b h
  rw [← Option.some_inj, ← ofByte?_toByte a, h, ofByte?_toByte]

theorem ofByte?_eq_some {b : UInt8} {c : Command} (h : ofByte? b = some c) : b = c.toByte := by
  rw [ofByte?] at h
  have hc := List.find?_some h
  exact (beq_iff_eq.1 hc).symm

theorem ofChar?_eq_some {c : Char} {cmd : Command} (h : ofChar? c = some cmd) : c = cmd.toChar := by
  unfold ofChar? at h
  split at h <;> cases h <;> rfl

/-- The scanner knows the commands by the bytes that spell them. -/
theorem ofChar?_ofNat (b : UInt8) : ofChar? (Char.ofNat b.toNat) = ofByte? b := by
  have hb : b.toNat < 256 := b.toNat_lt
  refine Option.ext fun c => ⟨fun h => ?_, fun h => ?_⟩
  · have hc := congrArg Char.toNat (ofChar?_eq_some h)
    rw [Glyph.toNat_ofNat (.inl (by omega))] at hc
    have hbyte : b = c.toByte := by
      rw [← UInt8.toNat_inj, hc]
      cases c <;> rfl
    rw [hbyte, ofByte?_toByte]
  · rw [ofByte?_eq_some h]
    cases c <;> rfl

/-- Commands are ASCII. -/
theorem ofChar?_eq_none {c : Char} (h : 0x80 ≤ c.toNat) : ofChar? c = none := by
  cases hc : ofChar? c with
  | none => rfl
  | some cmd =>
    have : cmd.toChar.toNat < 0x80 := by cases cmd <;> decide
    rw [ofChar?_eq_some hc] at h
    omega

end Command

/-- The commands of a source text, comments left out. -/
def Bytes.commands (src : Bytes) : List Command :=
  src.filterMap Command.ofByte?

/-- The bytes after the last line feed. -/
def Bytes.lastLine (bytes : Bytes) : Bytes :=
  bytes.rtakeWhile (· ≠ 0x0A)

/-- The position of what follows the bytes `before` in a source. -/
def Pos.after (filename : String) (before : Bytes) : Pos where
  filename
  line := UInt32.ofNat (1 + before.count 0x0A)
  col := UInt32.ofNat (1 + (Glyph.decode before.lastLine).length)
  offset := before.length

/-- The token of the byte `b` that follows `before` in a source, if it has one. -/
def Located.atByte (filename : String) (before : Bytes) (b : UInt8) : Option Located :=
  (Command.ofByte? b).map fun c => ⟨.command c, .after filename before⟩

/-- The tokens of the bytes that follow `before` in a source: the commands among
    them, and the end of the input. -/
def Located.along (filename : String) (before : Bytes) : Bytes → List Located
  | [] => [⟨.eof, .after filename before⟩]
  | b :: rest => (atByte filename before b).toList ++ along filename (before ++ [b]) rest

/-! ## Bytes outside ASCII -/

theorem Command.ofByte?_eq_none {b : UInt8} (h : 0x80 ≤ b) : ofByte? b = none := by
  have hb : b.toNat < 256 := b.toNat_lt
  rw [← ofChar?_ofNat]
  refine ofChar?_eq_none ?_
  rw [Glyph.toNat_ofNat (.inl (by omega))]
  exact UInt8.le_iff_toNat_le.1 h

/-- A glyph is a command exactly if its first byte is one. -/
theorem Glyph.ofChar?_first (a : UInt8) (rest : Bytes) :
    Command.ofChar? (first a rest).toChar = Command.ofByte? a := by
  by_cases ha : a < 0x80
  · rw [first_ascii ha, toChar, Command.ofChar?_ofNat]
  · have ha : 0x80 ≤ a := UInt8.not_lt.1 ha
    rw [Command.ofChar?_eq_none (le_toChar_first ha rest), Command.ofByte?_eq_none ha]

/-- A glyph is a line feed exactly if its first byte is one. -/
theorem Glyph.toChar_first_eq_newline (a : UInt8) (rest : Bytes) :
    (first a rest).toChar = '\n' ↔ a = 0x0A := by
  by_cases ha : a < 0x80
  · have hlt : a.toNat < 256 := a.toNat_lt
    rw [first_ascii ha, toChar, ← Char.toNat_inj, toNat_ofNat (.inl (by omega)), ← UInt8.toNat_inj]
    rfl
  · have hle : 0x80 ≤ a := UInt8.not_lt.1 ha
    constructor
    · intro h
      have := le_toChar_first hle rest
      rw [h] at this
      exact absurd this (by decide)
    · rintro rfl
      exact absurd hle (by decide)

theorem Glyph.decode_eq_nil {bytes : Bytes} : decode bytes = [] ↔ bytes = [] := by
  cases bytes with
  | nil => simp
  | cons a rest => simp [decode_cons]

/-- Bytes outside ASCII hold no token. -/
theorem Located.along_append (filename : String) (before : Bytes) {tail : Bytes}
    (h : ∀ b ∈ tail, 0x80 ≤ b) (rest : Bytes) :
    along filename before (tail ++ rest) = along filename (before ++ tail) rest := by
  induction tail generalizing before with
  | nil => rw [List.nil_append, List.append_nil]
  | cons b tail ih =>
    rw [List.forall_mem_cons] at h
    rw [List.cons_append, along, atByte, Command.ofByte?_eq_none h.1, ih _ h.2, List.append_assoc]
    rfl

/-- The tokens of a text are that of its first byte and those behind its first
    glyph. -/
theorem Located.along_first (filename : String) (before : Bytes) (a : UInt8) (rest : Bytes) :
    along filename before (a :: rest) =
      (atByte filename before a).toList ++
        along filename (before ++ a :: rest.take ((Glyph.first a rest).width - 1))
          (rest.drop ((Glyph.first a rest).width - 1)) := by
  rw [along, ← List.take_append_drop ((Glyph.first a rest).width - 1) rest,
    along_append _ _ (Glyph.first_tail a rest).2]
  simp

/-! ## The bytes before a position -/

theorem Bytes.lastLine_append {bytes tail : Bytes} (h : ∀ b ∈ tail, b ≠ 0x0A) :
    lastLine (bytes ++ tail) = lastLine bytes ++ tail := by
  induction tail using List.reverseRecOn with
  | nil => rw [List.append_nil, List.append_nil]
  | append_singleton tail b ih =>
    rw [List.forall_mem_append] at h
    rw [← List.append_assoc, lastLine, List.rtakeWhile_concat_pos _ _ _ (by simpa using h.2 b), ← lastLine,
      ih h.1, List.append_assoc]

theorem Bytes.lastLine_newline (bytes : Bytes) : lastLine (bytes ++ [0x0A]) = [] :=
  List.rtakeWhile_concat_neg _ _ _ (by simp)

namespace Reader

/-- The reader stands behind the bytes `before` of a source and in front of the
    bytes `after`, between two glyphs of its current line. -/
structure Stands (filename : String) (before after : Bytes) (r : Reader) : Prop where
  pos : r.pos = .after filename before
  char : r.char = (Glyph.decode after).head?.map Glyph.toChar
  rest : r.rest = (Glyph.decode after).tail
  next : r.next = before.length + ((Glyph.decode after).head?.map Glyph.width).getD 0
  cut : Glyph.decode (before.lastLine ++ after) =
    Glyph.decode before.lastLine ++ Glyph.decode after

theorem advance_pos (r : Reader) : r.advance.pos = {
    filename := r.filename
    line := if r.char = some '\n' then r.line + 1 else r.line
    col := if r.char = some '\n' then 1 else r.col + 1
    offset := r.next } := by
  unfold advance pos
  cases r.rest <;> rfl

theorem advance_char (r : Reader) : r.advance.char = r.rest.head?.map Glyph.toChar := by
  unfold advance
  cases r.rest <;> rfl

theorem advance_rest (r : Reader) : r.advance.rest = r.rest.tail := by
  unfold advance
  cases h : r.rest <;> rfl

theorem advance_next (r : Reader) :
    r.advance.next = r.next + (r.rest.head?.map Glyph.width).getD 0 := by
  unfold advance
  cases r.rest <;> rfl

theorem stands_start (filename : String) (src : Bytes) :
    (start filename src).Stands filename [] src := by
  refine ⟨?_, ?_, ?_, ?_, rfl⟩
  · rw [start, advance_pos]
    rfl
  · rw [start, advance_char]
  · rw [start, advance_rest]
  · rw [start, advance_next]
    rfl

variable {filename : String} {before after : Bytes} {r : Reader}

/-- Moving on from a byte that is no line feed takes its whole glyph. -/
theorem Stands.cut_append {a : UInt8} {rest : Bytes}
    (h : r.Stands filename before (a :: rest)) (ha : a ≠ 0x0A) :
    let n := (Glyph.first a rest).width - 1
    Glyph.decode (before ++ a :: rest.take n).lastLine =
        Glyph.decode before.lastLine ++ [Glyph.first a rest] ∧
      Glyph.decode ((before ++ a :: rest.take n).lastLine ++ rest.drop n) =
        Glyph.decode (before ++ a :: rest.take n).lastLine ++ Glyph.decode (rest.drop n) := by
  intro n
  obtain ⟨hlen, htail⟩ := Glyph.first_tail a rest
  have hline : (before ++ a :: rest.take n).lastLine = before.lastLine ++ a :: rest.take n := by
    refine Bytes.lastLine_append fun b hb => ?_
    rcases List.mem_cons.1 hb with rfl | hb
    · exact ha
    · rintro rfl
      exact absurd (htail _ hb) (by decide)
  have hwhole : Glyph.decode ((before.lastLine ++ a :: rest.take n) ++ rest.drop n) =
      (Glyph.decode before.lastLine ++ [Glyph.first a rest]) ++ Glyph.decode (rest.drop n) := by
    rw [List.append_assoc, List.cons_append, List.take_append_drop, h.cut, Glyph.decode_cons,
      List.append_assoc, List.singleton_append]
  have hwidths : Glyph.widths (Glyph.decode before.lastLine ++ [Glyph.first a rest]) =
      (before.lastLine ++ a :: rest.take n).length := by
    have := (Glyph.first a rest).width_pos
    simp only [Glyph.widths_append, Glyph.widths_decode, Glyph.widths_cons, Glyph.widths_nil,
      List.length_append, List.length_cons, List.length_take]
    omega
  rw [hline, Glyph.decode_of_append hwhole hwidths, hwhole]
  exact ⟨rfl, rfl⟩

/-- Moving on takes one glyph. -/
theorem Stands.advance {a : UInt8} {rest : Bytes} (h : r.Stands filename before (a :: rest)) :
    r.advance.Stands filename (before ++ a :: rest.take ((Glyph.first a rest).width - 1))
      (rest.drop ((Glyph.first a rest).width - 1)) := by
  have hchar : r.char = some (Glyph.first a rest).toChar := by
    rw [h.char, Glyph.decode_cons, List.head?_cons, Option.map_some]
  have hrest : r.rest = Glyph.decode (rest.drop ((Glyph.first a rest).width - 1)) := by
    rw [h.rest, Glyph.decode_cons, List.tail_cons]
  have hnext : r.next =
      (before ++ a :: rest.take ((Glyph.first a rest).width - 1)).length := by
    have := (Glyph.first a rest).width_pos
    have := (Glyph.first_tail a rest).1
    rw [h.next, Glyph.decode_cons, List.head?_cons, Option.map_some, Option.getD_some,
      List.length_append, List.length_cons, List.length_take]
    omega
  have hfile : r.filename = filename := congrArg Pos.filename h.pos
  have hline : r.line = UInt32.ofNat (1 + before.count 0x0A) := congrArg Pos.line h.pos
  have hcol : r.col = UInt32.ofNat (1 + (Glyph.decode before.lastLine).length) :=
    congrArg Pos.col h.pos
  by_cases ha : a = 0x0A
  · -- A line feed starts a new line.
    subst ha
    have hw : (Glyph.first 0x0A rest).width - 1 = 0 := by
      rw [Glyph.width_first_ascii (by decide)]
    have hnl : r.char = some '\n' := by
      rw [hchar, (Glyph.toChar_first_eq_newline 0x0A rest).2 rfl]
    rw [hw, List.drop_zero] at hrest
    rw [hw, List.take_zero] at hnext
    rw [hw, List.take_zero, List.drop_zero]
    refine ⟨?_, by rw [advance_char, hrest], by rw [advance_rest, hrest],
      by rw [advance_next, hnext, hrest], by rw [Bytes.lastLine_newline]; rfl⟩
    rw [advance_pos, if_pos hnl, if_pos hnl, hfile, hline, hnext, Pos.after, Bytes.lastLine_newline,
      List.count_append, List.count_singleton_self, ← Nat.add_assoc, UInt32.ofNat_add (1 + _) 1]
    rfl
  · have hnl : r.char ≠ some '\n' := by
      rw [hchar, Ne, Option.some.injEq, Glyph.toChar_first_eq_newline]
      exact ha
    have hcount : (a :: rest.take ((Glyph.first a rest).width - 1)).count 0x0A = 0 := by
      refine List.count_eq_zero.2 fun hmem => ?_
      rcases List.mem_cons.1 hmem with rfl | hmem
      · exact ha rfl
      · exact absurd ((Glyph.first_tail a rest).2 _ hmem) (by decide)
    obtain ⟨hdecode, hcut⟩ := h.cut_append ha
    refine ⟨?_, by rw [advance_char, hrest], by rw [advance_rest, hrest],
      by rw [advance_next, hnext, hrest], hcut⟩
    have hlen : 1 + (Glyph.decode
        (before ++ a :: rest.take ((Glyph.first a rest).width - 1)).lastLine).length =
        1 + (Glyph.decode before.lastLine).length + 1 := by
      rw [hdecode, List.length_append, Nat.add_assoc]
      rfl
    rw [advance_pos, if_neg hnl, if_neg hnl, hfile, hline, hcol, hnext, Pos.after, hlen,
      List.count_append, hcount, UInt32.ofNat_add (1 + _) 1]
    rfl

/-- One step of listing tokens: the glyph at hand adds the token of its first byte. -/
theorem Stands.tokensAlong_cons {a : UInt8} {rest : Bytes}
    (h : r.Stands filename before (a :: rest)) (acc : List Located) (ahead : List Glyph) :
    let acc' := (Located.atByte filename before a).toList.reverse ++ acc
    Reader.tokensAlong acc ahead r =
      match ahead with
      | [] => ⟨.eof, r.advance.pos⟩ :: acc'
      | _ :: ahead => Reader.tokensAlong acc' ahead r.advance := by
  have hchar : r.char = some (Glyph.first a rest).toChar := by
    rw [h.char, Glyph.decode_cons, List.head?_cons, Option.map_some]
  rw [Reader.tokensAlong.eq_def]
  simp only [hchar, Glyph.ofChar?_first, Located.atByte, ← h.pos]
  cases Command.ofByte? a <;> cases ahead <;> rfl

/-- The tokens from where the reader stands are those of the bytes after it. -/
theorem Stands.tokensAlong (h : r.Stands filename before after) (acc : List Located) :
    Reader.tokensAlong acc r.rest r = (Located.along filename before after).reverse ++ acc := by
  induction hn : r.rest generalizing before after r acc with
  | nil =>
    cases after with
    | nil =>
      have hchar : r.char = none := h.char
      simp only [Reader.tokensAlong, hchar, Located.along, h.pos]
      rfl
    | cons a rest =>
      -- The glyph at hand is the last one.
      have hrest : rest.drop ((Glyph.first a rest).width - 1) = [] := by
        rw [h.rest, Glyph.decode_cons, List.tail_cons] at hn
        exact Glyph.decode_eq_nil.1 hn
      have hadv := h.advance.pos
      rw [h.tokensAlong_cons, Located.along_first, hrest, hadv]
      simp [Located.along]
  | cons g gs ih =>
    cases after with
    | nil => simp [h.rest] at hn
    | cons a rest =>
      have hrest : r.advance.rest = gs := by rw [advance_rest, hn, List.tail_cons]
      rw [h.tokensAlong_cons, Located.along_first, List.reverse_append, List.append_assoc]
      exact ih h.advance _ hrest

end Reader

/-- The tokens of a source text: one for each command byte, and the end. -/
theorem Source.tokens_ofBytes (filename : String) (src : Bytes) :
    (Source.ofBytes filename src).tokens = Located.along filename [] src := by
  have h := (Reader.stands_start filename src).tokensAlong []
  rw [List.append_nil] at h
  rw [Source.tokens, Reader.tokens]
  exact (congrArg List.reverse h).trans (List.reverse_reverse _)

end TapeCompiler
