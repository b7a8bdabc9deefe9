import TapeCompiler.Text.Quoted

/-!
# Random identifiers

A stand-in for a library of random identifiers: a linear generator with a period of 2^128,
whose states are written as 32 hexadecimal digits.
-/

namespace TapeCompiler.Identifier

/-- One step of the generator. -/
def draw (state : Nat) : Nat :=
  (state * 0x2360ED051FC65DA44385DF649FCCF645 + 0x5851F42D4C957F2D14057B7EF767814F) % Nat.pow 2 128

/-- The text of an identifier: 32 hexadecimal digits, of which the thirteenth is the
    version and the seventeenth carries the variant. -/
def text (bits : Nat) : String :=
  let digits := Quoted.hex 32 bits
  String.ofList (digits.take 12 ++ ['4'] ++ (digits.drop 13).take 3 ++
    [Quoted.hexDigit (8 + (bits / Nat.pow 16 15) % 4)] ++ digits.drop 17)

/-- The identifiers that follow a start. -/
def series (start : Nat) (n : Nat) : String :=
  text (draw (n.repeat draw start))

end TapeCompiler.Identifier
