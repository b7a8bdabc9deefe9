import TapeCompiler.Host.Basic
import TapeCompiler.Text.Blank
import TapeCompiler.Text.Quoted

/-!
# Log lines

A log line is a list of `key=value` pairs: the time, the level, the message, and what
belongs to it. A value that could be mistaken for something else is quoted.
-/

namespace TapeCompiler.Log

/-- How much a log shows, and how much a line weighs. -/
inductive Level where
  | debug
  | warn
  deriving DecidableEq, Repr

/-- The word for a level. -/
def Level.name : Level → String
  | debug => "DEBUG"
  | warn => "WARN"

/-- Whether a character has to be quoted: a blank, an equals sign, a quote, or anything
    that cannot be seen. A backslash and a delete character need not. -/
def needsQuotes (c : Char) : Bool :=
  if c.toNat < 0x80 then
    c.toNat < 0x20 || c = ' ' || c = '=' || c = '"'
  else
    c = '\ufffd' || isBlank c || !isPrintable c

/-- The text of a value: as it is, or quoted. -/
def valueText (b : Bytes) : Bytes :=
  if b.isEmpty || (Glyph.chars b).any needsQuotes then Quoted.bytes b else b

/-- A value that can be logged. -/
inductive Value where
  | text (b : Bytes)
  | number (n : Int)
  | switch (b : Bool)
  /-- A list of words. -/
  | words (ws : List Bytes)
  /-- A span of time in nanoseconds. -/
  | span (nanoseconds : Nat)
  deriving DecidableEq, Repr

/-- The decimal digits of a fraction, `width` of them, without zeros at the end and with
    a point in front; nothing if all are zeros. -/
def fractionText (n width : Nat) : String :=
  let digits := (Nat.toDigits 10 (Nat.pow 10 width + n)).drop 1
  let kept := (digits.reverse.dropWhile (· == '0')).reverse
  if kept.isEmpty then "" else String.ofList ('.' :: kept)

/-- A span of time in the largest unit that keeps its number at one or more: nano-,
    micro- and milliseconds below a second, then hours, minutes and seconds. -/
def spanText (n : Nat) : String :=
  if n = 0 then "0s"
  else if n < 1000 then s!"{n}ns"
  else if n < 1000000 then s!"{n / 1000}{fractionText (n % 1000) 3}µs"
  else if n < 1000000000 then s!"{n / 1000000}{fractionText (n % 1000000) 6}ms"
  else
    let seconds := n / 1000000000
    let tail := s!"{seconds % 60}{fractionText (n % 1000000000) 9}s"
    if seconds < 60 then tail
    else if seconds < 3600 then s!"{seconds / 60}m{tail}"
    else s!"{seconds / 3600}h{seconds / 60 % 60}m{tail}"

/-- A number with at least `width` digits. -/
def padded (width n : Nat) : String :=
  let digits := Nat.toDigits 10 n
  String.ofList (List.replicate (width - digits.length) '0' ++ digits)

/-- The year, month and day that lie `days` after the first of January 1970. -/
def dateOf (days : Nat) : Nat × Nat × Nat :=
  -- Years are taken to start in March, so that the leap day is the last.
  let shifted := days + 719468
  let era := shifted / 146097
  let dayOfEra := shifted % 146097
  let yearOfEra := (dayOfEra - dayOfEra / 1460 + dayOfEra / 36524 - dayOfEra / 146096) / 365
  let dayOfYear := dayOfEra - (365 * yearOfEra + yearOfEra / 4 - yearOfEra / 100)
  let monthFromMarch := (5 * dayOfYear + 2) / 153
  let day := dayOfYear - (153 * monthFromMarch + 2) / 5 + 1
  let month := if monthFromMarch < 10 then monthFromMarch + 3 else monthFromMarch - 9
  (yearOfEra + era * 400 + (if month ≤ 2 then 1 else 0), month, day)

/-- A time in nanoseconds since 1970, in universal time and with milliseconds. -/
def timeText (nanoseconds : Nat) : String :=
  let seconds := nanoseconds / 1000000000
  let (year, month, day) := dateOf (seconds / 86400)
  let date := s!"{padded 4 year}-{padded 2 month}-{padded 2 day}"
  let clock :=
    s!"{padded 2 (seconds / 3600 % 24)}:{padded 2 (seconds / 60 % 60)}:{padded 2 (seconds % 60)}"
  s!"{date}T{clock}.{padded 3 (nanoseconds / 1000000 % 1000)}Z"

/-- The text of a value in a line. -/
def Value.render : Value → Bytes
  | .text b => valueText b
  | .number n => toString n
  | .switch b => if b then "true" else "false"
  | .words ws => valueText ("[" ++ [' '.toUInt8].intercalate ws ++ "]")
  | .span n => spanText n

/-- One line of the log. -/
def line (nanoseconds : Nat) (level : Level) (message : String)
    (attributes : List (String × Value)) : Bytes :=
  let pairs : List (Bytes × Bytes) :=
    ("time", timeText nanoseconds) :: ("level", level.name) :: ("msg", valueText message) ::
      attributes.map fun (key, v) => (valueText key, v.render)
  [' '.toUInt8].intercalate (pairs.map fun (key, v) => key ++ "=" ++ v) ++ "\n"

/-- A log on the error stream that shows lines of the given level and above; without a
    level it shows nothing. -/
structure Logger where
  level? : Option Level := none
  deriving DecidableEq, Repr

/-- Whether a line of the given level is shown. -/
def Logger.shows (l : Logger) (level : Level) : Bool :=
  match l.level?, level with
  | none, _ => false
  | some .debug, _ => true
  | some .warn, .warn => true
  | some .warn, .debug => false

/-- Writes a line to the log. -/
def Logger.write {m : Type → Type} [Monad m] [Host m] (l : Logger) (level : Level)
    (message : String) (attributes : List (String × Value)) : m Unit := do
  if l.shows level then
    let time ← Host.now
    Host.printError (line time level message attributes)

end TapeCompiler.Log
