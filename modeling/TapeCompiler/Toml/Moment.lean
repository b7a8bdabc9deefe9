import TapeCompiler.Toml.Number

/-!
# Dates and times of TOML

A moment is a date, a time of day, or both with or without an offset from universal
time. The settings hold no moments, so only their form is checked.
-/

namespace TapeCompiler.Toml

/-- Whether a character can stand in a date or time. -/
def isMomentChar (c : Char) : Bool :=
  isDigit c || c = '-' || c = ':' || c = 'T' || c = 't' || c = ' ' || c = '.' || c = 'Z' ||
    c = 'z' || c = '+'

/-- The number of two digits, and what follows them. -/
def twoDigits? : List Char → Option (Nat × List Char)
  | a :: b :: rest =>
    if isDigit a && isDigit b then
      some ((a.toNat - '0'.toNat) * 10 + (b.toNat - '0'.toNat), rest)
    else none
  | _ => none

/-- Whether a year has a 29th of February. -/
def isLeapYear (year : Nat) : Bool :=
  year % 4 = 0 && (year % 100 != 0 || year % 400 = 0)

/-- The number of days of a month. -/
def daysIn (year month : Nat) : Nat :=
  if month = 2 then if isLeapYear year then 29 else 28
  else if [4, 6, 9, 11].contains month then 30
  else 31

/-- What follows a date. -/
def afterDate? (text : List Char) : Option (List Char) := do
  let (century, text) ← twoDigits? text
  let (year, text) ← twoDigits? text
  let '-' :: text := text | none
  let (month, text) ← twoDigits? text
  let '-' :: text := text | none
  let (day, text) ← twoDigits? text
  if 1 ≤ month && month ≤ 12 && 1 ≤ day && day ≤ daysIn (century * 100 + year) month then
    some text
  else none

/-- What follows a time of day with seconds and perhaps a fraction. -/
def afterTime? (text : List Char) : Option (List Char) := do
  let (hour, text) ← twoDigits? text
  let ':' :: text := text | none
  let (minute, text) ← twoDigits? text
  let ':' :: text := text | none
  let (second, text) ← twoDigits? text
  if hour < 24 && minute < 60 && second < 60 then
    match text with
    | '.' :: c :: rest => some (if isDigit c then rest.dropWhile isDigit else text)
    | _ => some text
  else none

/-- Whether a text is an offset from universal time. -/
def isOffset (text : List Char) : Bool :=
  match text with
  | ['Z'] => true
  | sign :: rest =>
    (sign = '+' || sign = '-') &&
      match twoDigits? rest with
      | some (hours, ':' :: rest) =>
        match twoDigits? rest with
        | some (minutes, []) => hours ≤ 24 && minutes ≤ 60
        | _ => false
      | _ => false
  | [] => false

/-- A moment with the letters for its parts in upper case; a blank between date and
    time counts as the letter. -/
def normalMoment (text : List Char) : List Char :=
  text.map fun c => if c = 't' || c = ' ' then 'T' else if c = 'z' then 'Z' else c

/-- Whether a text is a date, a time of day, or a date and time with or without an
    offset. -/
def isMoment (text : List Char) : Bool :=
  let text := normalMoment text
  match afterDate? text with
  | some [] => true
  | some ('T' :: rest) =>
    match afterTime? rest with
    | some [] => true
    | some rest => isOffset rest
    | none => false
  | some _ => false
  | none => afterTime? text == some []

end TapeCompiler.Toml
