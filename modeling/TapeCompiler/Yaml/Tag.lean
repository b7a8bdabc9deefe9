import TapeCompiler.Toml.Number
import TapeCompiler.Toml.Moment
import TapeCompiler.Yaml.Node

/-!
# What YAML scalars mean

A plain scalar means null, a truth value, a number or a moment if it looks like one, and
otherwise text. A tag can insist on one of these; a scalar that does not look like what
its tag says is an error. Under any other tag a scalar is text.
-/

namespace TapeCompiler.Yaml

/-- What a scalar means. Numbers and moments are not told apart any further. -/
inductive Meaning where
  | null
  | bool (b : Bool)
  | integer
  | float
  | moment
  | text (b : Bytes)
  deriving DecidableEq, Repr

/-- The short tag of a meaning. -/
def Meaning.tag : Meaning → String
  | null => "!!null"
  | bool _ => "!!bool"
  | integer => "!!int"
  | float => "!!float"
  | moment => "!!timestamp"
  | text _ => "!!str"

/-- Whether digits in a base write a number below a limit. -/
def fits (base limit : Nat) (digits : List Char) : Bool :=
  !digits.isEmpty && (Toml.magnitude? base digits).any (· < limit)

/-- Whether a text without underscores and sign writes an integer below a limit. A zero
    in front makes it octal, unless a letter for a base follows. -/
def isMagnitude (limit : Nat) (text : List Char) : Bool :=
  match text with
  | '0' :: c :: rest =>
    if c = 'x' || c = 'X' then fits 16 limit rest
    else if c = 'o' || c = 'O' then fits 8 limit rest
    else if c = 'b' || c = 'B' then fits 2 limit rest
    else fits 8 limit (c :: rest)
  | _ => fits 10 limit text

/-- Whether a text without underscores is an integer of 64 bits, with a sign or, being
    positive, without. -/
def isInteger (text : List Char) : Bool :=
  match text with
  | '-' :: rest => isMagnitude 0x8000000000000001 rest
  | '+' :: rest => isMagnitude 0x8000000000000000 rest
  | _ => isMagnitude 0x10000000000000000 text

/-- Whether a text is a float in digits. -/
def isFloat (text : List Char) : Bool :=
  match Toml.floatParts? (Toml.unsigned text).2 with
  | some p => !p.overflows
  | none => false

/-- One or two digits, and what follows them. -/
def shortNumber? (text : List Char) : Option (Nat × List Char) :=
  match Toml.twoDigits? text with
  | some r => some r
  | none =>
    match text with
    | c :: rest => if Toml.isDigit c then some (c.toNat - '0'.toNat, rest) else none
    | [] => none

/-- What follows a date whose month and day may have one digit. -/
def afterDate? (text : List Char) : Option (List Char) := do
  let (century, text) ← Toml.twoDigits? text
  let (year, text) ← Toml.twoDigits? text
  let '-' :: text := text | none
  let (month, text) ← shortNumber? text
  let '-' :: text := text | none
  let (day, text) ← shortNumber? text
  if 1 ≤ month && month ≤ 12 && 1 ≤ day && day ≤ Toml.daysIn (century * 100 + year) month then
    some text
  else none

/-- What follows a time whose parts may have one digit. -/
def afterTime? (text : List Char) : Option (List Char) := do
  let (hour, text) ← shortNumber? text
  let ':' :: text := text | none
  let (minute, text) ← shortNumber? text
  let ':' :: text := text | none
  let (second, text) ← shortNumber? text
  if hour < 24 && minute < 60 && second < 60 then
    match text with
    | '.' :: c :: rest => some (if Toml.isDigit c then rest.dropWhile Toml.isDigit else text)
    | _ => some text
  else none

/-- Whether a text is a moment: a date, alone, with a time and an offset, or with a time
    after a blank. -/
def isMoment (text : List Char) : Bool :=
  match afterDate? text with
  | some [] => true
  | some (c :: rest) =>
    match afterTime? rest with
    | some left =>
      if c = 'T' || c = 't' then Toml.isOffset left else c = ' ' && left.isEmpty
    | none => false
  | none => false

/-- What a plain scalar means; `moments` says whether moments count. -/
def classify (text : String) (moments : Bool) : Meaning :=
  let chars := text.toList
  let bare := chars.filter (· != '_')
  if ["", "~", "null", "Null", "NULL"].contains text then .null
  else if ["true", "True", "TRUE"].contains text then .bool true
  else if ["false", "False", "FALSE"].contains text then .bool false
  else if [".nan", ".NaN", ".NAN", ".inf", ".Inf", ".INF", "+.inf", "+.Inf", "+.INF", "-.inf",
      "-.Inf", "-.INF"].contains text then .float
  else if chars.head? = some '.' then
    if isFloat chars then .float else .text text
  else if chars.head?.any fun c => Toml.isDigit c || c = '+' || c = '-' then
    if moments && isMoment chars then .moment
    else if isInteger bare then .integer
    else if isFloat bare then .float
    else .text text
  else .text text

/-- The value of a character of base 64. -/
def base64Digit? (c : Char) : Option Nat :=
  if c.isUpper then some (c.toNat - 'A'.toNat)
  else if c.isLower then some (c.toNat - 'a'.toNat + 26)
  else if c.isDigit then some (c.toNat - '0'.toNat + 52)
  else if c = '+' then some 62
  else if c = '/' then some 63
  else none

/-- The bytes that base 64 writes, four characters for three bytes. -/
def base64Groups : List Char → Option Bytes
  | [] => some []
  | [a, b, '=', '='] => do
    let n := (← base64Digit? a) * 64 + (← base64Digit? b)
    some [UInt8.ofNat (n / 16)]
  | [a, b, c, '='] => do
    let n := ((← base64Digit? a) * 64 + (← base64Digit? b)) * 64 + (← base64Digit? c)
    some [UInt8.ofNat (n / 1024), UInt8.ofNat (n / 4)]
  | a :: b :: c :: d :: rest => do
    let high := (← base64Digit? a) * 64 + (← base64Digit? b)
    let n := (high * 64 + (← base64Digit? c)) * 64 + (← base64Digit? d)
    let tail ← base64Groups rest
    some (UInt8.ofNat (n / 65536) :: UInt8.ofNat (n / 256) :: UInt8.ofNat n :: tail)
  | _ => none

/-- The bytes that base 64 writes. Line ends are left out. -/
def base64? (text : String) : Option Bytes :=
  base64Groups (text.toList.filter fun c => c != '\n' && c != '\r')

/-- Whether a tag insists on a meaning that a scalar must look like. -/
def insists (tag : String) : Bool :=
  ["!!null", "!!bool", "!!int", "!!float", "!!timestamp"].contains tag

/-- What a scalar means, unless its tag does not fit it. A tag that is not known leaves
    the text as it is. -/
def meaning (tag? : Option String) (text : String) (plain : Bool) : Option Meaning :=
  match tag? with
  | none => some (if plain then classify text true else .text text)
  | some "!!binary" => (base64? text).map .text
  | some tag =>
    if !insists tag then some (.text text)
    else
      let found := classify text (tag = "!!timestamp")
      if found.tag = tag then some found
      else if tag = "!!float" && found = .integer then some .float
      else none

end TapeCompiler.Yaml
