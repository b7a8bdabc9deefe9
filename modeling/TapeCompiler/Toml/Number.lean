import TapeCompiler.Toml.Text

/-!
# Numbers of TOML

Integers are decimal, or hexadecimal, octal or binary with a letter after a zero,
and fit in 64 bits with a sign. Floats have a fraction, an exponent or both. Digits
may be parted by single underscores, and no decimal number starts with a needless
zero.
-/

namespace TapeCompiler.Toml

/-- Whether a character is a decimal digit. -/
def isDigit (c : Char) : Bool := '0' ≤ c && c ≤ '9'

/-- Whether every underscore stands after a digit and the text ends in a digit.
    Letters up to `f` count as digits here. -/
def underscoresOk (text : List Char) : Bool :=
  let step := fun (state : Bool × Bool) c =>
    (state.1 && (c != '_' || state.2), (hexDigit? c).isSome)
  let (ok, atDigit) := text.foldl step (true, false)
  ok && atDigit

/-- Splits a sign off a number: whether it is negative, and the rest. -/
def unsigned : List Char → Bool × List Char
  | '-' :: rest => (true, rest)
  | '+' :: rest => (false, rest)
  | text => (false, text)

/-- Whether a decimal number starts with a zero that another character follows. -/
def hasNeedlessZero (text : List Char) : Bool :=
  match (unsigned text).2 with
  | '0' :: _ :: _ => true
  | _ => false

/-- The number that digits write in a base; underscores are left out. -/
def magnitude? (base : Nat) (digits : List Char) : Option Nat :=
  (digits.filter (· != '_')).foldlM (fun n c =>
    match hexDigit? c with
    | some d => if d < base then some (n * base + d) else none
    | none => none) 0

/-- Whether an integer fits in 64 bits. -/
def inRange (n : Int) : Bool := -0x8000000000000000 ≤ n && n < 0x8000000000000000

/-- A decimal integer, with or without a sign. -/
def decimal? (text : List Char) : Option Int := do
  let (negative, digits) := unsigned text
  if !underscoresOk text || hasNeedlessZero text then none
  let m ← magnitude? 10 digits
  let n : Int := if negative then -(m : Int) else m
  if inRange n then some n else none

/-- The digits of an integer that starts with `0x`, `0o` or `0b`. -/
def based? (base : Nat) (digits : List Char) : Option Int := do
  if !underscoresOk digits then none
  let m ← magnitude? base digits
  if inRange m then some (m : Int) else none

/-- The parts of a float, without signs of the mantissa and without underscores. -/
structure FloatParts where
  whole : List Char
  fraction : List Char
  exponent : Int
  deriving Repr

/-- The exponent of a float, with its sign. -/
def exponent? (text : List Char) : Option Int := do
  let (negative, digits) := unsigned text
  if digits.isEmpty || !digits.all isDigit then none
  let m ← magnitude? 10 digits
  some (if negative then -(m : Int) else m)

/-- Cuts a float without sign and underscores into its parts. -/
def floatParts? (text : List Char) : Option FloatParts := do
  let whole := text.takeWhile isDigit
  let rest := text.drop whole.length
  let (fraction, rest) := match rest with
    | '.' :: tail => (tail.takeWhile isDigit, tail.dropWhile isDigit)
    | _ => ([], rest)
  if whole.isEmpty && fraction.isEmpty then none
  match rest with
  | [] => some ⟨whole, fraction, 0⟩
  | c :: tail =>
    if c = 'e' || c = 'E' then
      let e ← exponent? tail
      some ⟨whole, fraction, e⟩
    else none

/-- Whether a float is too large for a double: it rounds to 2^1024 or more. -/
def FloatParts.overflows (p : FloatParts) : Bool :=
  let digits := (p.whole ++ p.fraction).dropWhile (· == '0')
  let m := (magnitude? 10 digits).getD 0
  let scale := p.exponent - p.fraction.length
  if digits.isEmpty then false
  else if 400 < scale + digits.length then true
  else if scale + digits.length < 300 then false
  else
    let limit := Nat.pow 2 1024 - Nat.pow 2 970
    if 0 ≤ scale then limit ≤ m * Nat.pow 10 scale.toNat
    else limit * Nat.pow 10 (-scale).toNat ≤ m

/-- The runs of a float between points and exponent marks. -/
def floatRuns (text : List Char) : List (List Char) :=
  (text.splitOnP fun c => c = '.' || c = 'e' || c = 'E').filter (!·.isEmpty)

/-- Whether every point has a digit after it. -/
def pointsOk : List Char → Bool
  | [] => true
  | ['.'] => false
  | '.' :: c :: rest => isDigit c && pointsOk (c :: rest)
  | _ :: rest => pointsOk rest

/-- Whether a text of digits, points, signs, underscores and exponent marks is a
    float. -/
def isFloat (text : List Char) : Bool :=
  let runs := floatRuns text
  let bare := (unsigned (text.filter (· != '_'))).2
  runs.all underscoresOk && !(runs.head?.any hasNeedlessZero) && pointsOk text &&
    match floatParts? bare with
    | some p => !p.overflows
    | none => false

end TapeCompiler.Toml
