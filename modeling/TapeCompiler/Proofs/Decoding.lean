import Mathlib.Data.List.DropRight
import TapeCompiler.Text.Glyph

/-!
# Reading glyphs off a byte string

The glyph at the front of a byte string is one of three things: an ASCII byte, a
stray byte, or a character whose further bytes are all outside ASCII
(`Glyph.first_cases`). Everything else about decoding follows from that:

  * `Glyph.decode_cons`: decoding takes one glyph and goes on behind its bytes;
  * `Glyph.first_append`: a glyph does not depend on the bytes behind it;
  * `Glyph.decode_of_append`: a byte string cut between two glyphs decodes to the
    glyphs before the cut;
  * `Glyph.decode_append_ascii`: such a cut is in front of every ASCII byte.
-/

namespace TapeCompiler.Glyph

/-! ## Sizes of characters -/

theorem toNat_ofNat {v : Nat} (h : v.isValidChar) : (Char.ofNat v).toNat = v := by
  rw [Char.ofNat, dif_pos h]
  rfl

theorem utf8Size_ofNat {v : Nat} (h : v.isValidChar) :
    (Char.ofNat v).utf8Size =
      if v ≤ 0x7F then 1 else if v ≤ 0x7FF then 2 else if v ≤ 0xFFFF then 3 else 4 := by
  have hv : (Char.ofNat v).val.toNat = v := toNat_ofNat h
  simp only [Char.utf8Size, UInt32.le_iff_toNat_le, hv, UInt32.toNat_ofNatLT]

theorem utf8EncodeChar_ofNat {v : Nat} (h : v.isValidChar) :
    String.utf8EncodeChar (Char.ofNat v) =
      if v ≤ 0x7F then [UInt8.ofNat v]
      else if v ≤ 0x7FF then [UInt8.ofNat (v / 64 % 32 + 0xC0), UInt8.ofNat (v % 64 + 0x80)]
      else if v ≤ 0xFFFF then
        [UInt8.ofNat (v / 4096 % 16 + 0xE0), UInt8.ofNat (v / 64 % 64 + 0x80),
          UInt8.ofNat (v % 64 + 0x80)]
      else
        [UInt8.ofNat (v / 262144 % 8 + 0xF0), UInt8.ofNat (v / 4096 % 64 + 0x80),
          UInt8.ofNat (v / 64 % 64 + 0x80), UInt8.ofNat (v % 64 + 0x80)] := by
  have hv : (Char.ofNat v).val.toNat = v := toNat_ofNat h
  rw [String.utf8EncodeChar, hv]

theorem ofNat_eq_byte {n : Nat} {b : UInt8} (h : n = b.toNat) : UInt8.ofNat n = b := by
  rw [h, UInt8.ofNat_toNat]

/-- A character of more than one byte is outside ASCII. -/
theorem le_toNat_of_utf8Size {c : Char} (h : c.utf8Size ≠ 1) : 0x80 ≤ c.toNat := by
  rw [Ne, Char.utf8Size_eq_one_iff, UInt32.le_iff_toNat_le] at h
  exact Nat.lt_of_not_le h

/-! ## The glyph at the front -/

theorem isTail_iff {b : UInt8} : isTail b ↔ 0x80 ≤ b.toNat ∧ b.toNat ≤ 0xBF := by
  simp [isTail, UInt8.le_iff_toNat_le]

/-- A second byte is a tail byte; the lead bytes at the edges of their range narrow
    it further. -/
theorem isSecond_bounds {a b : UInt8} (h : isSecond a b) :
    0x80 ≤ b.toNat ∧ b.toNat ≤ 0xBF ∧ (a.toNat = 0xE0 → 0xA0 ≤ b.toNat) ∧
      (a.toNat = 0xED → b.toNat ≤ 0x9F) ∧ (a.toNat = 0xF0 → 0x90 ≤ b.toNat) ∧
      (a.toNat = 0xF4 → b.toNat ≤ 0x8F) := by
  simp only [isSecond, isTail, ← UInt8.toNat_inj, UInt8.le_iff_toNat_le, UInt8.reduceToNat] at h
  split_ifs at h <;> simp only [Bool.and_eq_true, decide_eq_true_eq] at h <;> omega

/-- A two-byte character reads the same whatever follows it. -/
theorem first_two {a b : UInt8} (h₁ : ¬a < 0x80) (h₂ : (0xC2 ≤ a && a ≤ 0xDF) = true)
    (hb : isTail b) :
    ∃ c : Char, String.utf8EncodeChar c = [a, b] ∧ ∀ more, first a (b :: more) = char c := by
  refine ⟨Char.ofNat ((a.toNat - 0xC0) * 64 + tailBits b), ?_, fun more => by
    simp only [first, if_neg h₁, if_pos h₂, if_pos hb]⟩
  simp only [Bool.and_eq_true, decide_eq_true_eq, UInt8.le_iff_toNat_le, UInt8.reduceToNat] at h₂
  have := isTail_iff.1 hb
  unfold tailBits
  generalize hv : (a.toNat - 0xC0) * 64 + (b.toNat - 0x80) = v
  have hlow : ¬v ≤ 0x7F := by omega
  have hhigh : v ≤ 0x7FF := by omega
  rw [utf8EncodeChar_ofNat (.inl (by omega)), if_neg hlow, if_pos hhigh,
    ofNat_eq_byte (b := a) (by omega), ofNat_eq_byte (b := b) (by omega)]

/-- A three-byte character reads the same whatever follows it. -/
theorem first_three {a b c : UInt8} (h₁ : ¬a < 0x80) (h₂ : ¬(0xC2 ≤ a && a ≤ 0xDF) = true)
    (h₃ : (0xE0 ≤ a && a ≤ 0xEF) = true) (hb : (isSecond a b && isTail c) = true) :
    ∃ c' : Char, String.utf8EncodeChar c' = [a, b, c] ∧
      ∀ more, first a (b :: c :: more) = char c' := by
  refine ⟨Char.ofNat ((a.toNat - 0xE0) * 4096 + tailBits b * 64 + tailBits c), ?_, fun more => by
    simp only [first, if_neg h₁, if_neg h₂, if_pos h₃, if_pos hb]⟩
  simp only [Bool.and_eq_true, decide_eq_true_eq, UInt8.le_iff_toNat_le, UInt8.reduceToNat] at h₃ hb
  have := isSecond_bounds hb.1
  have := isTail_iff.1 hb.2
  unfold tailBits
  generalize hv : (a.toNat - 0xE0) * 4096 + (b.toNat - 0x80) * 64 + (c.toNat - 0x80) = v
  -- The second byte keeps the value above the two-byte range and off the surrogates.
  have hvalid : v.isValidChar := by unfold Nat.isValidChar; omega
  have hlow : ¬v ≤ 0x7FF := by omega
  have hhigh : v ≤ 0xFFFF := by omega
  rw [utf8EncodeChar_ofNat hvalid, if_neg (by omega), if_neg hlow, if_pos hhigh,
    ofNat_eq_byte (b := a) (by omega), ofNat_eq_byte (b := b) (by omega),
    ofNat_eq_byte (b := c) (by omega)]

/-- A four-byte character reads the same whatever follows it. -/
theorem first_four {a b c d : UInt8} (h₁ : ¬a < 0x80) (h₂ : ¬(0xC2 ≤ a && a ≤ 0xDF) = true)
    (h₃ : ¬(0xE0 ≤ a && a ≤ 0xEF) = true) (h₄ : (0xF0 ≤ a && a ≤ 0xF4) = true)
    (hb : (isSecond a b && isTail c && isTail d) = true) :
    ∃ c' : Char, String.utf8EncodeChar c' = [a, b, c, d] ∧
      ∀ more, first a (b :: c :: d :: more) = char c' := by
  refine ⟨Char.ofNat ((a.toNat - 0xF0) * 262144 + tailBits b * 4096 + tailBits c * 64 + tailBits d),
    ?_, fun more => by simp only [first, if_neg h₁, if_neg h₂, if_neg h₃, if_pos h₄, if_pos hb]⟩
  simp only [Bool.and_eq_true, decide_eq_true_eq, UInt8.le_iff_toNat_le, UInt8.reduceToNat] at h₄ hb
  have := isSecond_bounds hb.1.1
  have := isTail_iff.1 hb.1.2
  have := isTail_iff.1 hb.2
  unfold tailBits
  generalize hv : (a.toNat - 0xF0) * 262144 + (b.toNat - 0x80) * 4096 + (c.toNat - 0x80) * 64 +
    (d.toNat - 0x80) = v
  have hvalid : v.isValidChar := by unfold Nat.isValidChar; omega
  have hlow : ¬v ≤ 0xFFFF := by omega
  rw [utf8EncodeChar_ofNat hvalid, if_neg (by omega), if_neg (by omega), if_neg hlow,
    ofNat_eq_byte (b := a) (by omega), ofNat_eq_byte (b := b) (by omega),
    ofNat_eq_byte (b := c) (by omega), ofNat_eq_byte (b := d) (by omega)]

theorem le_of_isTail {b : UInt8} (h : isTail b) : 0x80 ≤ b :=
  UInt8.le_iff_toNat_le.2 (isTail_iff.1 h).1

theorem le_of_isSecond {a b : UInt8} (h : isSecond a b) : 0x80 ≤ b :=
  UInt8.le_iff_toNat_le.2 (isSecond_bounds h).1

/-- What the front of a byte string can be. In the last case `tail` holds the
    further bytes of the character; the character is the same whatever follows
    them. -/
theorem first_cases (a : UInt8) (rest : Bytes) :
    (a < 0x80 ∧ ∀ rest, first a rest = char (Char.ofNat a.toNat)) ∨
    (0x80 ≤ a ∧ first a rest = stray a) ∨
    (0x80 ≤ a ∧ ∃ (tail more : Bytes) (c : Char), rest = tail ++ more ∧ tail ≠ [] ∧
      (∀ b ∈ tail, 0x80 ≤ b) ∧ String.utf8EncodeChar c = a :: tail ∧
      ∀ more, first a (tail ++ more) = char c) := by
  by_cases h₁ : a < 0x80
  · exact .inl ⟨h₁, fun _ => if_pos h₁⟩
  have ha : 0x80 ≤ a := UInt8.not_lt.1 h₁
  refine .inr ?_
  by_cases h₂ : (0xC2 ≤ a && a ≤ 0xDF) = true
  · match rest with
    | [] => exact .inl ⟨ha, by simp only [first, if_neg h₁, if_pos h₂]⟩
    | b :: more =>
      by_cases hb : isTail b
      · obtain ⟨c, hc, hfirst⟩ := first_two h₁ h₂ hb
        exact .inr ⟨ha, [b], more, c, rfl, by simp, by simpa using le_of_isTail hb, hc, hfirst⟩
      · exact .inl ⟨ha, by simp only [first, if_neg h₁, if_pos h₂, if_neg hb]⟩
  by_cases h₃ : (0xE0 ≤ a && a ≤ 0xEF) = true
  · match rest with
    | [] | [b] => exact .inl ⟨ha, by simp only [first, if_neg h₁, if_neg h₂, if_pos h₃]⟩
    | b :: c :: more =>
      by_cases hb : (isSecond a b && isTail c) = true
      · obtain ⟨c', hc, hfirst⟩ := first_three h₁ h₂ h₃ hb
        have hb := Bool.and_eq_true_iff.1 hb
        exact .inr ⟨ha, [b, c], more, c', rfl, by simp,
          by simpa using ⟨le_of_isSecond hb.1, le_of_isTail hb.2⟩, hc, hfirst⟩
      · exact .inl ⟨ha, by simp only [first, if_neg h₁, if_neg h₂, if_pos h₃, if_neg hb]⟩
  by_cases h₄ : (0xF0 ≤ a && a ≤ 0xF4) = true
  · match rest with
    | [] | [b] | [b, c] =>
      exact .inl ⟨ha, by simp only [first, if_neg h₁, if_neg h₂, if_neg h₃, if_pos h₄]⟩
    | b :: c :: d :: more =>
      by_cases hb : (isSecond a b && isTail c && isTail d) = true
      · obtain ⟨c', hc, hfirst⟩ := first_four h₁ h₂ h₃ h₄ hb
        simp only [Bool.and_eq_true] at hb
        exact .inr ⟨ha, [b, c, d], more, c', rfl, by simp,
          by simpa using ⟨le_of_isSecond hb.1.1, le_of_isTail hb.1.2, le_of_isTail hb.2⟩,
          hc, hfirst⟩
      · exact .inl ⟨ha, by simp only [first, if_neg h₁, if_neg h₂, if_neg h₃, if_pos h₄, if_neg hb]⟩
  · exact .inl ⟨ha, by simp only [first, if_neg h₁, if_neg h₂, if_neg h₃, if_neg h₄]⟩

theorem first_ascii {a : UInt8} (h : a < 0x80) (rest : Bytes) :
    first a rest = char (Char.ofNat a.toNat) :=
  if_pos h

theorem width_pos (g : Glyph) : 0 < g.width := by
  cases g with
  | char c => exact c.utf8Size_pos
  | stray => exact Nat.one_pos

/-- A character is as wide as its bytes are many. -/
theorem width_char {c : Char} {a : UInt8} {tail : Bytes} (h : String.utf8EncodeChar c = a :: tail) :
    (char c).width = tail.length + 1 := by
  rw [width, ← String.length_utf8EncodeChar, h, List.length_cons]

/-- An ASCII byte is a glyph of its own. -/
theorem width_first_ascii {a : UInt8} (h : a < 0x80) (rest : Bytes) : (first a rest).width = 1 := by
  have ha : a.toNat < 0x80 := UInt8.lt_iff_toNat_lt.1 h
  rw [first_ascii h, width, utf8Size_ofNat (.inl (by omega)), if_pos (by omega)]

/-- A glyph that starts outside ASCII is outside ASCII. -/
theorem le_toChar_first {a : UInt8} (h : 0x80 ≤ a) (rest : Bytes) :
    0x80 ≤ (first a rest).toChar.toNat := by
  rcases first_cases a rest with ⟨ha, -⟩ | ⟨-, hg⟩ | ⟨-, tail, more, c, rfl, htail, -, hc, hg⟩
  · exact absurd ha (UInt8.not_lt.2 h)
  · rw [hg, toChar]
    decide
  · have htail : 0 < tail.length := List.length_pos_iff.2 htail
    have hwidth : c.utf8Size = tail.length + 1 := width_char hc
    rw [hg more, toChar]
    exact le_toNat_of_utf8Size (by omega)

/-- The further bytes of a glyph are there, and outside ASCII. -/
theorem first_tail (a : UInt8) (rest : Bytes) :
    (first a rest).width - 1 ≤ rest.length ∧
      ∀ b ∈ rest.take ((first a rest).width - 1), 0x80 ≤ b := by
  rcases first_cases a rest with ⟨ha, -⟩ | ⟨-, hg⟩ | ⟨-, tail, more, c, rfl, -, htail, hc, hg⟩
  · simp [width_first_ascii ha]
  · simp [hg, width]
  · simpa [hg, width_char hc] using htail

/-- A glyph does not depend on the bytes behind it. -/
theorem first_append {a : UInt8} {xs ys : Bytes}
    (h : (first a (xs ++ ys)).width - 1 ≤ xs.length) : first a xs = first a (xs ++ ys) := by
  rcases first_cases a (xs ++ ys) with ⟨ha, -⟩ | ⟨ha, hg⟩ | ⟨-, tail, more, c, heq, -, -, hc, hg⟩
  · rw [first_ascii ha, first_ascii ha]
  · -- A character in `xs` would still be there with `ys` behind it.
    rcases first_cases a xs with ⟨ha', -⟩ | ⟨-, hg'⟩ | ⟨-, tail, more, c, rfl, -, -, -, hg'⟩
    · exact absurd ha' (UInt8.not_lt.2 ha)
    · rw [hg, hg']
    · rw [List.append_assoc, hg'] at hg
      cases hg
  · rw [heq, hg, width_char hc, Nat.add_sub_cancel] at h
    obtain ⟨more', rfl⟩ : tail <+: xs :=
      List.prefix_of_prefix_length_le ⟨more, heq.symm⟩ (List.prefix_append xs ys) h
    rw [hg, List.append_assoc, hg]

/-! ## Decoding -/

@[simp] theorem decode_nil : decode [] = [] := rfl

theorem decodeOnto_eq (acc : List Glyph) (skip : Nat) (bytes : Bytes) :
    decodeOnto acc skip bytes = decodeOnto [] 0 (bytes.drop skip) ++ acc := by
  induction bytes generalizing acc skip with
  | nil => simp [decodeOnto]
  | cons a rest ih =>
    cases skip with
    | zero =>
      rw [List.drop_zero, decodeOnto, decodeOnto, ih, ih [first a rest], List.append_assoc]
      rfl
    | succ skip => rw [decodeOnto, ih, List.drop_succ_cons]

/-- Decoding takes the glyph at the front and goes on behind it. -/
theorem decode_cons (a : UInt8) (rest : Bytes) :
    decode (a :: rest) = first a rest :: decode (rest.drop ((first a rest).width - 1)) := by
  rw [decode, decodeOnto, decodeOnto_eq, List.reverse_append]
  rfl

/-- The number of bytes that glyphs were read from. -/
def widths : List Glyph → Nat
  | [] => 0
  | g :: gs => g.width + widths gs

@[simp] theorem widths_nil : widths [] = 0 := rfl

@[simp] theorem widths_cons (g : Glyph) (gs : List Glyph) :
    widths (g :: gs) = g.width + widths gs := rfl

@[simp] theorem widths_append (gs hs : List Glyph) : widths (gs ++ hs) = widths gs + widths hs := by
  induction gs with
  | nil => simp
  | cons g gs ih => rw [List.cons_append, widths_cons, widths_cons, ih, Nat.add_assoc]

/-- Decoding a byte string that is cut where glyphs of the whole end gives these
    glyphs. -/
theorem decode_of_append {gs : List Glyph} : ∀ {xs ys : Bytes},
    decode (xs ++ ys) = gs ++ decode ys → widths gs = xs.length → decode xs = gs := by
  induction gs with
  | nil =>
    intro xs ys _ hw
    rw [List.length_eq_zero_iff.1 hw.symm, decode_nil]
  | cons g gs ih =>
    intro xs ys h hw
    have hg := g.width_pos
    cases xs with
    | nil => simp at hw; omega
    | cons a xs =>
      rw [List.cons_append, decode_cons, List.cons_append, List.cons.injEq] at h
      obtain ⟨rfl, h⟩ := h
      rw [widths_cons, List.length_cons] at hw
      have hle : (first a (xs ++ ys)).width - 1 ≤ xs.length := by omega
      rw [List.drop_append_of_le_length hle] at h
      rw [decode_cons, first_append hle, ih h (by rw [List.length_drop]; omega)]

/-- A glyph starts at every ASCII byte, whatever stands before it. -/
theorem decode_append_ascii {a : UInt8} (ha : a < 0x80) (xs ys : Bytes) :
    decode (xs ++ a :: ys) = decode xs ++ decode (a :: ys) := by
  induction h : xs.length using Nat.strong_induction_on generalizing xs with
  | _ n ih =>
    subst h
    cases xs with
    | nil => rfl
    | cons b xs =>
      obtain ⟨-, htail⟩ := first_tail b (xs ++ a :: ys)
      -- The further bytes of the first glyph are outside ASCII, so they end before `a`.
      have hle : (first b (xs ++ a :: ys)).width - 1 ≤ xs.length := by
        by_contra hlt
        refine absurd (htail a ?_) (UInt8.not_le.2 ha)
        refine List.mem_of_getElem? (i := xs.length) ?_
        rw [List.getElem?_take, if_pos (by omega), List.getElem?_append_right (Nat.le_refl _),
          Nat.sub_self, List.getElem?_cons_zero]
      have hlt : (xs.drop ((first b (xs ++ a :: ys)).width - 1)).length < (b :: xs).length := by
        rw [List.length_drop, List.length_cons]
        omega
      rw [List.cons_append, decode_cons, decode_cons, first_append hle,
        List.drop_append_of_le_length hle, ih _ hlt _ rfl, List.cons_append]

/-- Decoding accounts for every byte. -/
theorem widths_decode (bytes : Bytes) : widths (decode bytes) = bytes.length := by
  induction h : bytes.length using Nat.strong_induction_on generalizing bytes with
  | _ n ih =>
    subst h
    cases bytes with
    | nil => rfl
    | cons a rest =>
      have hle := (first_tail a rest).1
      have hpos := (first a rest).width_pos
      have hlt : (rest.drop ((first a rest).width - 1)).length < (a :: rest).length := by
        rw [List.length_drop, List.length_cons]
        omega
      rw [decode_cons, widths_cons, ih _ hlt _ rfl, List.length_drop, List.length_cons]
      omega

end TapeCompiler.Glyph
