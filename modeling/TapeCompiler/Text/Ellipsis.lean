import TapeCompiler.Text.Glyph

/-!
# Shortened text

A tool's banner is cut to a number of characters. What is cut off is marked by
three dots, which count, so the limit must leave room for them.
-/

namespace TapeCompiler.Ellipsis

/-- Why a text could not be shortened: it is too long, and the limit leaves no
    room for the dots. The number is the limit less three, as a word of 64 bits. -/
inductive NoRoom where
  | negative (room : Int)
  /-- The limit is so low that the word has wrapped around, beyond any text. -/
  | wrapped (room : Int) (capacity : Nat)
  deriving DecidableEq, Repr

/-- The fault of a limit for a text of `length` characters. Room is set aside for at
    least 32. -/
def NoRoom.ofLimit (limit : Int) (length : Nat) : NoRoom :=
  let room := Int.bmod (limit - 3) 0x10000000000000000
  if room < 0 then .negative room else .wrapped room (max 32 length)

/-- The wording of the fault: a slice with an impossible end. -/
def NoRoom.message : NoRoom → String
  | negative room => s!"runtime error: slice bounds out of range [:{room}]"
  | wrapped room capacity =>
    s!"runtime error: slice bounds out of range [:{room}] with capacity {capacity}"

/-- The mark for what was cut off. -/
def dots : List Char := ['.', '.', '.']

/-- The text cut to at most `limit` characters. A text that is short enough stays
    byte for byte as it is; a longer one is well formed afterwards, its stray
    bytes turned into U+FFFD. -/
def shorten (text : Bytes) (limit : Int) : Except NoRoom Bytes :=
  let chars := Glyph.chars text
  if (chars.length : Int) ≤ limit then
    .ok text
  else if limit < 3 then
    .error (NoRoom.ofLimit limit chars.length)
  else
    .ok (Bytes.ofChars (chars.take (limit.toNat - 3) ++ dots))

end TapeCompiler.Ellipsis
