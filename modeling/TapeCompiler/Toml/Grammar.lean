import TapeCompiler.Toml.Moment
import TapeCompiler.Text.Glyph

/-!
# The grammar of TOML

A document is a list of statements: headers of tables, headers of elements of lists
of tables, and pairs of a key and a value. Reading it here settles only the form;
what the statements amount to is said in `Toml.Table`.

Every reader takes the characters that are left and gives its result and what is
left after it. Where a reader calls itself, a number bounds how often; the length of
the document is always enough, since each call uses up a character.
-/

namespace TapeCompiler.Toml

/-- A value as it is written. Moments and floats are not told apart any further. -/
inductive Written where
  | text (s : String)
  | bool (b : Bool)
  | integer (n : Int)
  | float
  | moment
  | list (items : List Written)
  | table (pairs : List (List String × Written))
  deriving Repr

/-- One statement of a document. -/
inductive Statement where
  /-- The header of a table. -/
  | table (path : List String)
  /-- The header of a new element of a list of tables. -/
  | element (path : List String)
  | pair (path : List String) (value : Written)
  deriving Repr

/-- Whether a character can stand in a key without quotes. -/
def isBare (c : Char) : Bool :=
  c.isAlphanum || c = '_' || c = '-'

/-- The characters after the blanks. -/
def dropGaps (text : List Char) : List Char := text.dropWhile isGap

/-- The characters after a comment, from the line end on. -/
def dropComment (text : List Char) : List Char := text.dropWhile (!isNewline ·)

/-- One part of a key. -/
def keyPart (text : List Char) : Option (String × List Char) :=
  match text with
  | '"' :: rest => quoted rest
  | '\'' :: rest => literal rest
  | _ =>
    let bare := text.takeWhile isBare
    if bare.isEmpty then none else some (String.ofList bare, text.drop bare.length)

/-- The parts of a key, parted by dots, up to the mark that ends it. -/
def keyPathOnto (stop : Char) (acc : List String) :
    Nat → List Char → Option (List String × List Char)
  | 0, _ => none
  | n + 1, text =>
    match keyPart (dropGaps text) with
    | none => none
    | some (part, rest) =>
      match dropGaps rest with
      | c :: rest =>
        if c = '.' then keyPathOnto stop (part :: acc) n rest
        else if c = stop then some ((part :: acc).reverse, rest)
        else none
      | [] => none

/-- The parts of a key, parted by dots, up to the mark that ends it. -/
def keyPath (stop : Char) (text : List Char) : Option (List String × List Char) :=
  keyPathOnto stop [] (text.length + 1) text

/-- The text that `word` starts, without it. -/
def dropWord? (word text : List Char) : Option (List Char) :=
  if word.isPrefixOf text then some (text.drop word.length) else none

/-- A date or time. Blanks at its end belong to it but do not count. -/
def moment (text : List Char) : Option (Written × List Char) :=
  let token := text.takeWhile isMomentChar
  let trimmed := (token.reverse.dropWhile (· = ' ')).reverse
  if isMoment trimmed then some (.moment, text.drop token.length) else none

/-- A float. -/
def float (text : List Char) : Option (Written × List Char) :=
  let token := text.takeWhile fun c =>
    isDigit c || c = '_' || c = '.' || c = '-' || c = '+' || c = 'e' || c = 'E'
  -- A sign in front of the float is part of the run.
  if isFloat token then some (.float, text.drop token.length) else none

/-- An integer in the given base, after the mark for the base. -/
def basedInteger (base : Nat) (text : List Char) : Option (Written × List Char) := do
  let token := text.takeWhile fun c => c = '_' || (hexDigit? c).any (· < base)
  let n ← based? base token
  some (.integer n, text.drop token.length)

/-- A decimal number, or a moment, after an optional sign. -/
def decimalOrMoment (text : List Char) : Option (Written × List Char) := do
  let (_, digits) := unsigned text
  let sign := text.length - digits.length
  let token := digits.takeWhile fun c => isDigit c || c = '_'
  match digits.drop token.length with
  | c :: _ =>
    if c = '.' || c = 'e' || c = 'E' then float text
    else if (c = '-' || c = ':') && sign = 0 && token.all isDigit then moment text
    else
      let n ← decimal? (text.take (sign + token.length))
      some (.integer n, text.drop (sign + token.length))
  | [] =>
    let n ← decimal? text
    some (.integer n, [])

/-- A value that starts with a digit or a sign. -/
def number (text : List Char) : Option (Written × List Char) :=
  match text with
  | '0' :: 'x' :: rest => basedInteger 16 rest
  | '0' :: 'o' :: rest => basedInteger 8 rest
  | '0' :: 'b' :: rest => basedInteger 2 rest
  | _ =>
    let (_, bare) := unsigned text
    match (dropWord? ['i', 'n', 'f'] bare).orElse fun _ => dropWord? ['n', 'a', 'n'] bare with
    | some rest => some (.float, rest)
    | none => if bare.head?.any isDigit then decimalOrMoment text else none

/-- A value without other values in it. -/
def scalar (text : List Char) : Option (Written × List Char) :=
  match text with
  | '"' :: '"' :: '"' :: rest => (quotedBlock rest).map fun (s, rest) => (.text s, rest)
  | '"' :: rest => (quoted rest).map fun (s, rest) => (.text s, rest)
  | '\'' :: '\'' :: '\'' :: rest => (literalBlock rest).map fun (s, rest) => (.text s, rest)
  | '\'' :: rest => (literal rest).map fun (s, rest) => (.text s, rest)
  | 't' :: 'r' :: 'u' :: 'e' :: rest => some (.bool true, rest)
  | 'f' :: 'a' :: 'l' :: 's' :: 'e' :: rest => some (.bool false, rest)
  | _ => number text

/-- The characters after blanks, line ends and comments, as they may stand between
    the values of a list. -/
def dropSpace : Nat → List Char → List Char
  | 0, text => text
  | n + 1, text =>
    match text.dropWhile fun c => isGap c || isNewline c with
    | '#' :: rest => dropSpace n (dropComment rest)
    | rest => rest

mutual

/-- A value; blanks may stand before it. -/
def value : Nat → List Char → Option (Written × List Char)
  | 0, _ => none
  | n + 1, text =>
    match dropGaps text with
    | '[' :: rest => items n [] rest
    | '\x7b' :: rest =>
      match dropGaps rest with
      | '\x7d' :: rest => some (.table [], rest)
      | rest => pairs n [] rest
    | rest => scalar rest

/-- The values of a list up to its closing bracket; `acc` holds those read, the last
    one first. A comma may follow the last value. -/
def items : Nat → List Written → List Char → Option (Written × List Char)
  | 0, _, _ => none
  | n + 1, acc, text =>
    match dropSpace text.length text with
    | ']' :: rest => some (.list acc.reverse, rest)
    | rest =>
      match value n rest with
      | none => none
      | some (v, rest) =>
        match dropSpace rest.length rest with
        | ',' :: rest => items n (v :: acc) rest
        | ']' :: rest => some (.list (v :: acc).reverse, rest)
        | _ => none

/-- The pairs of an inline table up to its closing brace. They stand on one line, and
    no comma follows the last. -/
def pairs : Nat → List (List String × Written) → List Char → Option (Written × List Char)
  | 0, _, _ => none
  | n + 1, acc, text =>
    match keyPath '=' (dropGaps text) with
    | none => none
    | some (path, rest) =>
      match value n rest with
      | none => none
      | some (v, rest) =>
        match dropGaps rest with
        | ',' :: rest => pairs n ((path, v) :: acc) rest
        | '\x7d' :: rest => some (.table ((path, v) :: acc).reverse, rest)
        | _ => none

end

/-- What follows the end of the line that a statement stands on. Only blanks and a
    comment may come before it. -/
def lineEnd (text : List Char) : Option (List Char) :=
  match dropGaps text with
  | [] => some []
  | '#' :: rest => some (dropComment rest)
  | c :: rest => if isNewline c then some rest else none

/-- One statement. -/
def statement (text : List Char) : Option (Statement × List Char) :=
  match text with
  | '[' :: '[' :: rest =>
    match keyPath ']' rest with
    | some (path, ']' :: rest) => some (.element path, rest)
    | _ => none
  | '[' :: rest => (keyPath ']' rest).map fun (path, rest) => (.table path, rest)
  | _ =>
    match keyPath '=' text with
    | none => none
    | some (path, rest) =>
      (value (rest.length + 1) rest).map fun (v, rest) => (.pair path v, rest)

/-- The statements of a document. -/
def statementsOnto (acc : List Statement) : Nat → List Char → Option (List Statement)
  | 0, _ => none
  | n + 1, text =>
    match dropSpace text.length text with
    | [] => some acc.reverse
    | rest =>
      match statement rest with
      | none => none
      | some (s, rest) =>
        match lineEnd rest with
        | none => none
        | some rest => statementsOnto (s :: acc) n rest

/-- Whether a character may not stand in a document at all. -/
def isControl (c : Char) : Bool :=
  (c.toNat < 0x20 && c != '\t' && c != '\n' && c != '\r') || c.toNat = 0x7F

/-- Whether every carriage return stands before a line feed and no other control
    character occurs but tabs and line feeds. -/
def isClean : List Char → Bool
  | [] => true
  | '\r' :: '\n' :: rest => isClean rest
  | c :: rest => c != '\r' && !isControl c && isClean rest

/-- The bytes of a document without a byte order mark in front. -/
def dropMark (bytes : Bytes) : Bytes :=
  match bytes with
  | 0xFF :: 0xFE :: rest => rest
  | 0xFE :: 0xFF :: rest => rest
  | 0xEF :: 0xBB :: 0xBF :: rest => rest
  | _ => bytes

/-- The statements of a document, unless its form is wrong. -/
def statements (bytes : Bytes) : Option (List Statement) := do
  let text ← Glyph.wellFormed? (dropMark bytes)
  if isClean text then statementsOnto [] (text.length + 1) text else none

end TapeCompiler.Toml
