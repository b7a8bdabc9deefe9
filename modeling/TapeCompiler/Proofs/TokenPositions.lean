import TapeCompiler.Proofs.TokenStream

/-!
# Lines and columns of tokens

The reader counts lines and columns as it goes, one character ahead of the tokens, and it
decodes the source from the start. Yet the line and the column of a token can be read off the
bytes before it: the line counts the line feeds, the column the characters behind the last of
them (`Scanner.handsOut_lineCol`).

What the characters of a byte string are is said without the reader. `Bytes.Reads` goes by the
UTF-8 forms of characters alone: where one stands it is a character, and any other byte is a
character of its own. `Bytes.Characters` counts them. Glyphs agree with that:

  * `Glyph.first_utf8EncodeChar`: the form of a character is read as that character;
  * `Glyph.utf8EncodeChar_of_first`: what is read as a character is its form;
  * `Bytes.reads_iff`: the characters are those of the glyphs;
  * `Bytes.characters_iff`: there are as many characters as glyphs.
-/

namespace TapeCompiler

/-! ## The forms of characters -/

namespace Glyph

theorem toNat_ofNat_byte {n : Nat} (h : n < 256) : (UInt8.ofNat n).toNat = n := by
  rw [UInt8.toNat_ofNat']
  exact Nat.mod_eq_of_lt h

theorem isSecond_of_bounds {a b : UInt8} (hb : 0x80 ≤ b.toNat ∧ b.toNat ≤ 0xBF)
    (h : (a.toNat = 0xE0 → 0xA0 ≤ b.toNat) ∧ (a.toNat = 0xED → b.toNat ≤ 0x9F) ∧
      (a.toNat = 0xF0 → 0x90 ≤ b.toNat) ∧ (a.toNat = 0xF4 → b.toNat ≤ 0x8F)) : isSecond a b := by
  simp only [isSecond, isTail, ← UInt8.toNat_inj, UInt8.le_iff_toNat_le, UInt8.reduceToNat]
  split_ifs <;> simp only [Bool.and_eq_true, decide_eq_true_eq] <;> omega

/-- What the form of a character can be. -/
theorem utf8EncodeChar_cases (c : Char) :
    (∃ a, String.utf8EncodeChar c = [a] ∧ a.toNat < 0x80) ∨
    (∃ a b, String.utf8EncodeChar c = [a, b] ∧ (0xC2 ≤ a.toNat ∧ a.toNat ≤ 0xDF) ∧ isTail b) ∨
    (∃ a b d, String.utf8EncodeChar c = [a, b, d] ∧ (0xE0 ≤ a.toNat ∧ a.toNat ≤ 0xEF) ∧
      isSecond a b ∧ isTail d) ∨
    ∃ a b d e, String.utf8EncodeChar c = [a, b, d, e] ∧ (0xF0 ≤ a.toNat ∧ a.toNat ≤ 0xF4) ∧
      isSecond a b ∧ isTail d ∧ isTail e := by
  have hv : c.toNat.isValidChar := c.valid
  rw [← Char.ofNat_toNat c, utf8EncodeChar_ofNat hv]
  rw [Nat.isValidChar] at hv
  generalize c.toNat = v at hv
  split_ifs with h₁ h₂ h₃
  · have ha := toNat_ofNat_byte (n := v) (by omega)
    exact .inl ⟨_, rfl, by omega⟩
  · have ha := toNat_ofNat_byte (n := v / 64 % 32 + 0xC0) (by omega)
    have hb := toNat_ofNat_byte (n := v % 64 + 0x80) (by omega)
    exact .inr (.inl ⟨_, _, rfl, by omega, isTail_iff.2 (by omega)⟩)
  · have ha := toNat_ofNat_byte (n := v / 4096 % 16 + 0xE0) (by omega)
    have hb := toNat_ofNat_byte (n := v / 64 % 64 + 0x80) (by omega)
    have hd := toNat_ofNat_byte (n := v % 64 + 0x80) (by omega)
    -- The value is above the two-byte range and no surrogate, which bounds the second byte.
    exact .inr (.inr (.inl ⟨_, _, _, rfl, by omega, isSecond_of_bounds (by omega) (by omega),
      isTail_iff.2 (by omega)⟩))
  · have ha := toNat_ofNat_byte (n := v / 262144 % 8 + 0xF0) (by omega)
    have hb := toNat_ofNat_byte (n := v / 4096 % 64 + 0x80) (by omega)
    have hd := toNat_ofNat_byte (n := v / 64 % 64 + 0x80) (by omega)
    have he := toNat_ofNat_byte (n := v % 64 + 0x80) (by omega)
    exact .inr (.inr (.inr ⟨_, _, _, _, rfl, by omega, isSecond_of_bounds (by omega) (by omega),
      isTail_iff.2 (by omega), isTail_iff.2 (by omega)⟩))

/-- An ASCII byte is the form of its character. -/
theorem utf8EncodeChar_ascii {a : UInt8} (h : a < 0x80) :
    String.utf8EncodeChar (Char.ofNat a.toNat) = [a] := by
  have ha : a.toNat < 0x80 := UInt8.lt_iff_toNat_lt.1 h
  rw [utf8EncodeChar_ofNat (.inl (by omega)), if_pos (by omega), UInt8.ofNat_toNat]

/-- A character is known by its form. -/
theorem utf8EncodeChar_inj {c d : Char}
    (h : String.utf8EncodeChar c = String.utf8EncodeChar d) : c = d := by
  have hc := ByteArray.utf8DecodeChar?_utf8EncodeChar_append (b := .empty) (c := c)
  rw [h, ByteArray.utf8DecodeChar?_utf8EncodeChar_append] at hc
  exact (Option.some.inj hc).symm

/-- An ASCII byte stands in no form but that of its character. -/
theorem eq_of_mem_utf8EncodeChar {a : UInt8} (h : a < 0x80) {c : Char}
    (hmem : a ∈ String.utf8EncodeChar c) : c = Char.ofNat a.toNat := by
  -- The forms of more than one byte have none that is ASCII.
  have hhigh : ∀ bs : Bytes, (∀ b ∈ bs, 0x80 ≤ b) → a ∉ bs :=
    fun bs hbs ha => UInt8.not_le.2 h (hbs a ha)
  have hlead : ∀ {b : UInt8}, 0xC2 ≤ b.toNat → 0x80 ≤ b :=
    fun hb => UInt8.le_iff_toNat_le.2 (Nat.le_trans (by decide) hb)
  rcases utf8EncodeChar_cases c with ⟨b, hc, -⟩ | ⟨b, d, hc, hb, hd⟩ |
    ⟨b, d, e, hc, hb, hd, he⟩ | ⟨b, d, e, f, hc, hb, hd, he, hf⟩ <;> rw [hc] at hmem
  · obtain rfl := List.mem_singleton.1 hmem
    exact utf8EncodeChar_inj (hc.trans (utf8EncodeChar_ascii h).symm)
  · refine absurd hmem (hhigh _ ?_)
    simp [hlead hb.1, le_of_isTail hd]
  · refine absurd hmem (hhigh _ ?_)
    simp [hlead (Nat.le_trans (by decide) hb.1), le_of_isSecond hd, le_of_isTail he]
  · refine absurd hmem (hhigh _ ?_)
    simp [hlead (Nat.le_trans (by decide) hb.1), le_of_isSecond hd, le_of_isTail he, le_of_isTail hf]

theorem not_lt_of_le {a : UInt8} (h : 0x80 ≤ a.toNat) : ¬a < 0x80 := by
  rw [UInt8.not_lt]
  exact UInt8.le_iff_toNat_le.2 h

theorem range_iff {low a high : UInt8} :
    (decide (low ≤ a) && decide (a ≤ high)) = true ↔
      low.toNat ≤ a.toNat ∧ a.toNat ≤ high.toNat := by
  simp only [Bool.and_eq_true, decide_eq_true_eq, UInt8.le_iff_toNat_le]

theorem not_range_of_lt {low a high : UInt8} (h : high.toNat < a.toNat) :
    ¬(decide (low ≤ a) && decide (a ≤ high)) = true := by
  rw [range_iff]
  omega

/-- Where the form of a character stands, that character is read. -/
theorem first_utf8EncodeChar {c : Char} {a : UInt8} {tail : Bytes}
    (h : String.utf8EncodeChar c = a :: tail) (more : Bytes) : first a (tail ++ more) = char c := by
  rcases utf8EncodeChar_cases c with ⟨a', hc, ha⟩ | ⟨a', b, hc, ha, hb⟩ |
    ⟨a', b, d, hc, ha, hb, hd⟩ | ⟨a', b, d, e, hc, ha, hb, hd, he⟩ <;> cases h.symm.trans hc
  · have hlt : a < 0x80 := UInt8.lt_iff_toNat_lt.2 ha
    rw [first_ascii hlt, utf8EncodeChar_inj ((utf8EncodeChar_ascii hlt).trans h.symm)]
  · obtain ⟨c', hc', hfirst⟩ := first_two (not_lt_of_le (by omega)) (range_iff.2 ha) hb
    rw [List.cons_append, hfirst, utf8EncodeChar_inj (hc'.trans h.symm)]
  · have htwo : ¬(0xC2 ≤ a && a ≤ 0xDF) = true :=
      not_range_of_lt (lt_of_lt_of_le (by decide) ha.1)
    obtain ⟨c', hc', hfirst⟩ := first_three (not_lt_of_le (by omega)) htwo (range_iff.2 ha)
      (Bool.and_eq_true_iff.2 ⟨hb, hd⟩)
    rw [List.cons_append, List.cons_append, hfirst, utf8EncodeChar_inj (hc'.trans h.symm)]
  · have htwo : ¬(0xC2 ≤ a && a ≤ 0xDF) = true :=
      not_range_of_lt (lt_of_lt_of_le (by decide) ha.1)
    have hthree : ¬(0xE0 ≤ a && a ≤ 0xEF) = true :=
      not_range_of_lt (lt_of_lt_of_le (by decide) ha.1)
    obtain ⟨c', hc', hfirst⟩ := first_four (not_lt_of_le (by omega)) htwo hthree (range_iff.2 ha)
      (Bool.and_eq_true_iff.2 ⟨Bool.and_eq_true_iff.2 ⟨hb, hd⟩, he⟩)
    rw [List.cons_append, List.cons_append, List.cons_append, hfirst,
      utf8EncodeChar_inj (hc'.trans h.symm)]

/-- What is read as a character is the form of that character. -/
theorem utf8EncodeChar_of_first {a : UInt8} {rest : Bytes} {c : Char} (h : first a rest = char c) :
    ∃ tail more, String.utf8EncodeChar c = a :: tail ∧ rest = tail ++ more := by
  rcases first_cases a rest with ⟨ha, hfirst⟩ | ⟨-, hfirst⟩ |
    ⟨-, tail, more, c', rfl, -, -, hc, hfirst⟩
  · cases (hfirst rest).symm.trans h
    exact ⟨[], rest, utf8EncodeChar_ascii ha, rfl⟩
  · cases hfirst.symm.trans h
  · cases (hfirst more).symm.trans h
    exact ⟨tail, more, hc, rfl⟩

/-- A stray byte stands for itself. -/
theorem eq_of_first_eq_stray {a b : UInt8} {rest : Bytes} (h : first a rest = stray b) : b = a := by
  rcases first_cases a rest with ⟨-, hfirst⟩ | ⟨-, hfirst⟩ |
    ⟨-, tail, more, c, rfl, -, -, -, hfirst⟩
  · cases (hfirst rest).symm.trans h
  · cases hfirst.symm.trans h
    rfl
  · cases (hfirst more).symm.trans h

end Glyph

/-! ## The characters of bytes -/

/-- Read as UTF-8 the bytes are these characters. Where the form of a character stands, it is
    that one; any other byte stands for U+FFFD by itself. -/
inductive Bytes.Reads : Bytes → List Char → Prop
  | nil : Reads [] []
  | char {rest : Bytes} {cs : List Char} (c : Char) :
      Reads rest cs → Reads (String.utf8EncodeChar c ++ rest) (c :: cs)
  | stray {b : UInt8} {rest : Bytes} {cs : List Char} :
      (∀ c, ¬String.utf8EncodeChar c <+: b :: rest) → Reads rest cs →
      Reads (b :: rest) ('\ufffd' :: cs)

/-- Read as UTF-8 the bytes are so many characters. -/
def Bytes.Characters (bytes : Bytes) (n : Nat) : Prop :=
  ∃ cs, bytes.Reads cs ∧ cs.length = n

namespace Glyph

theorem decode_utf8EncodeChar (c : Char) (rest : Bytes) :
    decode (String.utf8EncodeChar c ++ rest) = char c :: decode rest := by
  obtain ⟨a, tail, h⟩ : ∃ a tail, String.utf8EncodeChar c = a :: tail :=
    List.exists_cons_of_ne_nil String.utf8EncodeChar_ne_nil
  rw [h, List.cons_append, decode_cons, first_utf8EncodeChar h, width_char h, Nat.add_sub_cancel,
    List.drop_left]

/-- A byte is read by itself exactly if it starts the form of no character. -/
theorem first_eq_stray_iff {b : UInt8} {rest : Bytes} :
    first b rest = stray b ↔ ∀ c, ¬String.utf8EncodeChar c <+: b :: rest := by
  constructor
  · rintro hstray c ⟨more, hmore⟩
    obtain ⟨a, tail, hc⟩ : ∃ a tail, String.utf8EncodeChar c = a :: tail :=
      List.exists_cons_of_ne_nil String.utf8EncodeChar_ne_nil
    rw [hc, List.cons_append, List.cons.injEq] at hmore
    obtain ⟨rfl, rfl⟩ := hmore
    cases hstray.symm.trans (first_utf8EncodeChar hc more)
  · intro h
    cases hfirst : first b rest with
    | char c =>
      obtain ⟨tail, more, hc, rfl⟩ := utf8EncodeChar_of_first hfirst
      exact absurd ⟨more, by rw [hc]; rfl⟩ (h c)
    | stray b' => rw [eq_of_first_eq_stray hfirst]

end Glyph

namespace Bytes

theorem mem_ofString_iff {a : UInt8} (h : a < 0x80) {s : String} :
    a ∈ ofString s ↔ Char.ofNat a.toNat ∈ s.toList := by
  rw [ofString, ofChars, List.mem_flatMap]
  constructor
  · rintro ⟨c, hc, hmem⟩
    rwa [← Glyph.eq_of_mem_utf8EncodeChar h hmem]
  · exact fun hc => ⟨_, hc, by rw [Glyph.utf8EncodeChar_ascii h]; exact List.mem_singleton_self a⟩

theorem reads_chars (bytes : Bytes) : bytes.Reads (Glyph.chars bytes) := by
  induction hn : bytes.length using Nat.strong_induction_on generalizing bytes with
  | _ n ih =>
    subst hn
    cases bytes with
    | nil => exact .nil
    | cons a rest =>
      rw [Glyph.chars, Glyph.decode_cons, List.map_cons]
      cases hfirst : Glyph.first a rest with
      | char c =>
        obtain ⟨tail, more, hc, rfl⟩ := Glyph.utf8EncodeChar_of_first hfirst
        rw [Glyph.width_char hc, Nat.add_sub_cancel, List.drop_left, ← List.cons_append, ← hc]
        refine .char c (ih _ ?_ more rfl)
        rw [List.length_cons, List.length_append]
        omega
      | stray b =>
        obtain rfl := Glyph.eq_of_first_eq_stray hfirst
        exact .stray (Glyph.first_eq_stray_iff.1 hfirst) (ih _ (Nat.lt_succ_self _) rest rfl)

/-- The characters of bytes are those of the glyphs that are read off them. -/
theorem reads_iff {bytes : Bytes} {cs : List Char} :
    bytes.Reads cs ↔ cs = Glyph.chars bytes := by
  constructor
  · intro h
    induction h with
    | nil => rfl
    | char c _ ih => rw [Glyph.chars, Glyph.decode_utf8EncodeChar, List.map_cons, ih]; rfl
    | stray hnone _ ih =>
      rw [Glyph.chars, Glyph.decode_cons, List.map_cons, ih, Glyph.first_eq_stray_iff.2 hnone]
      rfl
  · rintro rfl
    exact reads_chars bytes

/-- Bytes are as many characters as glyphs are read off them. -/
theorem characters_iff {bytes : Bytes} {n : Nat} :
    bytes.Characters n ↔ n = (Glyph.decode bytes).length := by
  simp only [Characters, reads_iff, exists_eq_left]
  rw [Glyph.chars, List.length_map, eq_comm]

end Bytes

/-- The characters of a text are those that it was written with. -/
theorem Glyph.chars_ofChars (cs : List Char) : Glyph.chars (Bytes.ofChars cs) = cs := by
  have hreads : (Bytes.ofChars cs).Reads cs := by
    induction cs with
    | nil => exact .nil
    | cons c cs ih => exact .char c ih
  exact (Bytes.reads_iff.1 hreads).symm

/-! ## Where tokens stand -/

/-- A token stands behind some of the bytes it was read from, at their end. -/
theorem Located.exists_of_mem_along {filename : String} {before after : Bytes} {t : Located}
    (h : t ∈ along filename before after) :
    ∃ mid rest, after = mid ++ rest ∧ t.pos = .after filename (before ++ mid) := by
  induction after generalizing before with
  | nil =>
    obtain rfl := List.mem_singleton.1 h
    exact ⟨[], [], rfl, by rw [List.append_nil]⟩
  | cons b after ih =>
    rcases List.mem_append.1 h with h | h
    · obtain ⟨c, -, rfl⟩ := Option.map_eq_some_iff.1 (Option.mem_toList.1 h)
      exact ⟨[], b :: after, rfl, by rw [List.append_nil]⟩
    · obtain ⟨mid, rest, rfl, hpos⟩ := ih h
      exact ⟨b :: mid, rest, rfl, by rw [hpos, List.append_assoc, List.singleton_append]⟩

/-- Each token of a text, the end of the input included, has the line and the column of its
    byte: one more than the line feeds before it, and one more than the characters behind the
    last of them, both modulo 2³². -/
theorem Scanner.handsOut_lineCol (filename : String) (src : Bytes) :
    ∃ ts, (∀ us, HandsOut (ofSource (.ofBytes filename src)) us ↔ us = ts) ∧
      ∀ t ∈ ts, ∃ o n : Nat, o ≤ src.length ∧ t.pos.offset = o ∧
        (∀ m, (Bytes.lastLine (src.take o)).Characters m ↔ m = n) ∧
        t.pos.line.toNat = (1 + (src.take o).count 0x0A) % UInt32.size ∧
        t.pos.col.toNat = (1 + n) % UInt32.size := by
  refine ⟨Located.along filename [] src, fun us => ?_, fun t ht => ?_⟩
  · rw [handsOut_iff, left_ofSource]
  · obtain ⟨before, rest, rfl, hpos⟩ := Located.exists_of_mem_along ht
    have hbefore : (before ++ rest).take before.length = before := List.take_left
    refine ⟨before.length, (Glyph.decode before.lastLine).length, ?_, ?_, ?_, ?_, ?_⟩
    · rw [List.length_append]
      exact Nat.le_add_right _ _
    · rw [hpos]
      rfl
    · intro m
      rw [hbefore, Bytes.characters_iff]
    · rw [hpos, hbefore]
      exact UInt32.toNat_ofNat'
    · rw [hpos]
      exact UInt32.toNat_ofNat'

/-- The minus sign of a text whose first line holds `x`, a character of two bytes, a stray byte
    and a plus sign, and whose second starts with a character that is cut short: each of its two
    bytes takes a column. -/
theorem Scanner.handsOut_lineCol_cut :
    let src : Bytes := [0x78, 0xC3, 0xA9, 0xFF, 0x2B, 0x0A, 0xE2, 0x82, 0x2D]
    ∃ ts, HandsOut (ofSource (.ofBytes "u.bf" src)) ts ∧
      ⟨.command .sub, ⟨"u.bf", 2, 3, 8⟩⟩ ∈ ts ∧
      ∃ n, (∀ m, (Bytes.lastLine (src.take 8)).Characters m ↔ m = n) ∧
        2 = (1 + (src.take 8).count 0x0A) % UInt32.size ∧ 3 = (1 + n) % UInt32.size := by
  intro src
  obtain ⟨ts, hts, hpos⟩ := handsOut_lineCol "u.bf" src
  have hout : HandsOut (ofSource (.ofBytes "u.bf" src)) ts := (hts ts).2 rfl
  have hmem : ⟨.command .sub, ⟨"u.bf", 2, 3, 8⟩⟩ ∈ ts := by
    rw [handsOut_iff.1 hout]
    decide
  obtain ⟨o, n, -, ho, hn, hline, hcol⟩ := hpos _ hmem
  obtain rfl : 8 = o := Int.ofNat_inj.1 ho
  exact ⟨ts, hout, hmem, n, hn, hline, hcol⟩

end TapeCompiler
