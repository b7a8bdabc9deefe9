import TapeCompiler.Proofs.TokenPositions
import TapeCompiler.Text.Ellipsis

/-!
# Shortened text keeps to its limit

A text is cut by characters, and what is left of it is written anew. The text may be any
bytes, and a byte that is no part of a character counts for one, so the number of bytes
says little: three bytes are written for a stray one. But what is written is read as the
same characters again (`Glyph.chars_ofChars`), and there are as many of them as the limit
allows (`Ellipsis.length_cut`). So the limit is kept, and cutting again changes nothing:
`Ellipsis.shorten_keeps_limit`.
-/

namespace TapeCompiler

/-- What is written for characters is well-formed UTF-8. -/
theorem Bytes.isValidUTF8_ofChars (cs : List Char) :
    (Bytes.ofChars cs).toByteArray.IsValidUTF8 :=
  .intro cs rfl

namespace Ellipsis

/-- The characters of a text that is too long: as many as there is room for, and the dots. -/
def cut (cs : List Char) (limit : Int) : List Char :=
  cs.take (limit - 3).toNat ++ dots

variable {text : Bytes} {limit : Int}

theorem shorten_of_length_le (h : ((Glyph.chars text).length : Int) ≤ limit) :
    shorten text limit = .ok text :=
  if_pos h

theorem shorten_of_lt_length (hlimit : 3 ≤ limit) (h : limit < (Glyph.chars text).length) :
    shorten text limit = .ok (Bytes.ofChars (cut (Glyph.chars text) limit)) := by
  have hroom : limit.toNat - 3 = (limit - 3).toNat := by omega
  rw [shorten, if_neg (Int.not_le.2 h), if_neg (Int.not_lt.2 hlimit), hroom, cut]

/-- A text that is cut has as many characters as the limit says. -/
theorem length_cut {cs : List Char} (hlimit : 3 ≤ limit) (h : limit < cs.length) :
    ((cut cs limit).length : Int) = limit := by
  have hdots : dots.length = 3 := rfl
  rw [cut, List.length_append, List.length_take, hdots]
  omega

/-- For a limit with room for the dots every text can be shortened, whatever its bytes. The
    result has as many characters as the text, but no more than the limit. It is the text
    itself if that is short enough. Otherwise it is well-formed UTF-8: the first characters
    of the text, with U+FFFD for stray bytes, and three dots. Shortening it again changes
    nothing. -/
theorem shorten_keeps_limit (text : Bytes) (limit : Int) (hlimit : 3 ≤ limit) :
    ∃ cs short, (∀ cs', text.Reads cs' ↔ cs' = cs) ∧ shorten text limit = .ok short ∧
      (∀ n : Nat, short.Characters n ↔ (n : Int) = min limit cs.length) ∧
      (cs.length ≤ limit → short = text) ∧
      (limit < cs.length → short.toByteArray.IsValidUTF8 ∧
        short = Bytes.ofChars (cs.take (limit - 3).toNat) ++ Bytes.ofString "...") ∧
      shorten short limit = .ok short := by
  have hcount {bytes : Bytes} {n : Nat} : bytes.Characters n ↔ n = (Glyph.chars bytes).length := by
    rw [Bytes.characters_iff, Glyph.chars, List.length_map]
  refine ⟨Glyph.chars text, ?_⟩
  rcases Int.lt_or_le limit (Glyph.chars text).length with hlong | hshort
  · have hlength := length_cut hlimit hlong
    have hchars := Glyph.chars_ofChars (cut (Glyph.chars text) limit)
    refine ⟨Bytes.ofChars (cut (Glyph.chars text) limit), fun _ => Bytes.reads_iff,
      shorten_of_lt_length hlimit hlong, fun n => ?_, fun hshort => ?_, fun _ => ⟨?_, ?_⟩, ?_⟩
    · rw [hcount, hchars, Int.min_eq_left (Int.le_of_lt hlong), ← Int.ofNat_inj, hlength]
    · exact absurd hlong (Int.not_lt.2 hshort)
    · exact Bytes.isValidUTF8_ofChars _
    · exact Bytes.ofChars_append _ _
    · refine shorten_of_length_le ?_
      rw [hchars]
      exact Int.le_of_eq hlength
  · have hok := shorten_of_length_le hshort
    refine ⟨text, fun _ => Bytes.reads_iff, hok, fun n => ?_, fun _ => rfl, fun hlong => ?_, hok⟩
    · rw [hcount, Int.min_eq_right hshort, Int.ofNat_inj]
    · exact absurd hlong (Int.not_lt.2 hshort)

/-- A stray byte, a character of two bytes, the first two bytes of a character of three, and
    a minus sign are five characters. A limit of four leaves one of them, and a stray byte is
    three bytes then. -/
theorem shorten_keeps_limit_stray :
    let text : Bytes := [0xFF, 0xC3, 0xA9, 0xE2, 0x82, 0x2D]
    let short : Bytes := [0xEF, 0xBF, 0xBD, 0x2E, 0x2E, 0x2E]
    text.Characters 5 ∧ shorten text 4 = .ok short ∧ short.Characters 4 ∧
      short.toByteArray.IsValidUTF8 ∧ shorten short 4 = .ok short := by
  intro text short
  obtain ⟨cs, short', hcs, hok, hcount, -, hlong, hagain⟩ :=
    shorten_keeps_limit text 4 (by decide)
  obtain rfl : Glyph.chars text = cs := (hcs _).1 (Bytes.reads_chars text)
  obtain rfl : short = short' := by
    have : shorten text 4 = .ok short := by decide
    exact Except.ok.inj (this.symm.trans hok)
  refine ⟨Bytes.characters_iff.2 ?_, hok, (hcount 4).2 ?_, (hlong ?_).1, hagain⟩ <;> decide

end Ellipsis

end TapeCompiler
