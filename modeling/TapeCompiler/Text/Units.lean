import TapeCompiler.Text.Glyph

/-!
# Text in units of sixteen bits

A text can also be written in units of two bytes, with the low byte first or last. A
character beyond the first 65536 takes two units, one of the upper surrogates and one of
the lower. A surrogate that stands alone is no character.
-/

namespace TapeCompiler.Units

/-- The order of the two bytes of a unit. -/
inductive Order where
  | lowFirst
  | highFirst
  deriving DecidableEq, Repr

/-- The number that two bytes write. -/
def Order.unit (o : Order) (a b : UInt8) : Nat :=
  match o with
  | .lowFirst => a.toNat + b.toNat * 256
  | .highFirst => a.toNat * 256 + b.toNat

/-- The units of a byte string, which must have an even length. -/
def split? (o : Order) : Bytes → Option (List Nat)
  | [] => some []
  | [_] => none
  | a :: b :: rest => (split? o rest).map (o.unit a b :: ·)

/-- Whether a unit is the first of two. -/
def isUpper (u : Nat) : Bool := 0xD800 ≤ u && u < 0xDC00

/-- Whether a unit is the second of two. -/
def isLower (u : Nat) : Bool := 0xDC00 ≤ u && u < 0xE000

/-- The characters that units write. -/
def join? : List Nat → Option (List Char)
  | [] => some []
  | [u] => if isUpper u || isLower u then none else some [Char.ofNat u]
  | u :: v :: rest =>
    if isUpper u then
      if isLower v then
        (join? rest).map (Char.ofNat (0x10000 + (u - 0xD800) * 1024 + (v - 0xDC00)) :: ·)
      else none
    else if isLower u then none
    else (join? (v :: rest)).map (Char.ofNat u :: ·)

/-- The characters of a byte string in units of sixteen bits. -/
def chars? (o : Order) (bytes : Bytes) : Option (List Char) :=
  (split? o bytes).bind join?

end TapeCompiler.Units
