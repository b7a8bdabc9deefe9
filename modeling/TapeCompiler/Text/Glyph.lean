import TapeCompiler.Text.Bytes

/-!
# Glyphs: the characters of a byte string

A byte string is read as UTF-8, but it need not be well formed. Each step takes
either one well-formed character of one to four bytes, or a single *stray* byte
that starts no well-formed character. A stray byte counts as one character,
U+FFFD, of width one, so reading always gets on and never swallows a byte that
belongs to the next character.

Well formed means what the Unicode standard says: no overlong form, no
surrogate, nothing above U+10FFFF.

  * `Glyph.first` reads the glyph at the front of a non-empty byte string.
  * `Glyph.decode` reads all of them; `Glyph.encode` puts the bytes back.
-/

namespace TapeCompiler

/-- One step of reading a byte string: a well-formed character, or a byte that
    starts none. -/
inductive Glyph
  | char (c : Char)
  | stray (b : UInt8)
  deriving DecidableEq, Repr

namespace Glyph

/-- The character a glyph stands for. -/
def toChar : Glyph → Char
  | char c => c
  | stray _ => '\ufffd'

/-- The bytes a glyph was read from. -/
def bytes : Glyph → Bytes
  | char c => String.utf8EncodeChar c
  | stray b => [b]

/-- The number of bytes a glyph was read from. -/
def width : Glyph → Nat
  | char c => c.utf8Size
  | stray _ => 1

/-- Bytes that may stand in a character after its first byte. -/
def isTail (b : UInt8) : Bool :=
  0x80 ≤ b && b ≤ 0xBF

/-- The six payload bits of a byte after the first. -/
def tailBits (b : UInt8) : Nat :=
  b.toNat - 0x80

/-- Which second bytes may follow the lead byte of a three- or four-byte
    character. The bounds shut out overlong forms, surrogates and numbers above
    U+10FFFF. -/
def isSecond (lead b : UInt8) : Bool :=
  if lead = 0xE0 then 0xA0 ≤ b && b ≤ 0xBF
  else if lead = 0xED then 0x80 ≤ b && b ≤ 0x9F
  else if lead = 0xF0 then 0x90 ≤ b && b ≤ 0xBF
  else if lead = 0xF4 then 0x80 ≤ b && b ≤ 0x8F
  else isTail b

/-- The glyph at the front of the byte string `a :: rest`. -/
def first (a : UInt8) (rest : Bytes) : Glyph :=
  if a < 0x80 then
    char (Char.ofNat a.toNat)
  else if 0xC2 ≤ a && a ≤ 0xDF then
    match rest with
    | b :: _ =>
      if isTail b then char (Char.ofNat ((a.toNat - 0xC0) * 64 + tailBits b)) else stray a
    | _ => stray a
  else if 0xE0 ≤ a && a ≤ 0xEF then
    match rest with
    | b :: c :: _ =>
      if isSecond a b && isTail c then
        char (Char.ofNat ((a.toNat - 0xE0) * 4096 + tailBits b * 64 + tailBits c))
      else stray a
    | _ => stray a
  else if 0xF0 ≤ a && a ≤ 0xF4 then
    match rest with
    | b :: c :: d :: _ =>
      if isSecond a b && isTail c && isTail d then
        char (Char.ofNat ((a.toNat - 0xF0) * 262144 + tailBits b * 4096 + tailBits c * 64 + tailBits d))
      else stray a
    | _ => stray a
  else
    stray a

/-- The glyphs of a byte string, last first, in front of `acc`. The next `skip`
    bytes belong to the glyph read last. -/
def decodeOnto (acc : List Glyph) (skip : Nat) : Bytes → List Glyph
  | [] => acc
  | a :: rest =>
    match skip with
    | skip + 1 => decodeOnto acc skip rest
    | 0 => decodeOnto (first a rest :: acc) ((first a rest).width - 1) rest

/-- All glyphs of a byte string. -/
def decode (bytes : Bytes) : List Glyph :=
  (decodeOnto [] 0 bytes).reverse

/-- The byte string with the given glyphs. -/
def encode (glyphs : List Glyph) : Bytes :=
  glyphs.flatMap bytes

/-- The characters of a byte string, each stray byte as U+FFFD. -/
def chars (bytes : Bytes) : List Char :=
  (decode bytes).map toChar

/-- The characters of a byte string if all of it is well formed. -/
def wellFormed? (bytes : Bytes) : Option (List Char) :=
  (decode bytes).mapM fun
    | char c => some c
    | stray _ => none

end Glyph

/-- The text of a byte string, each stray byte as U+FFFD. -/
def Bytes.text (bytes : Bytes) : String :=
  String.ofList (Glyph.chars bytes)

end TapeCompiler
