import TapeCompiler.Text.Units
import TapeCompiler.Yaml.Scalar

/-!
# Tokens of YAML

The scanner turns a text into tokens that also tell where blocks start and end. It
keeps the columns of the open blocks, and for every open flow collection the place
where a key may have started: whether something was a key is known only when the
colon after it turns up, and then the token for the key is put in front of it.
-/

namespace TapeCompiler.Yaml

/-- A token of a YAML text. -/
inductive Token where
  | streamEnd
  | version (major minor : Nat)
  | tagHandle (handle uri : String)
  | documentStart
  | documentEnd
  | blockSequenceStart
  | blockMappingStart
  | blockEnd
  | flowSequenceStart
  | flowSequenceEnd
  | flowMappingStart
  | flowMappingEnd
  | blockEntry
  | flowEntry
  | key
  | value
  | alias (name : String)
  | anchor (name : String)
  | tag (handle suffix : String)
  | scalar (text : String) (plain : Bool)
  deriving DecidableEq, Repr

/-- A place where a key may have started. -/
structure KeyStart where
  /-- Whether only a key can stand here: at the indentation of a block. -/
  required : Bool
  /-- How many tokens stand before it. -/
  number : Nat
  mark : Mark
  deriving Repr

/-- A key stands on one line and has at most 1024 characters. -/
def KeyStart.isStale (k : KeyStart) (now : Mark) : Bool :=
  k.mark.line < now.line || k.mark.index + 1024 < now.index

/-- A text being scanned. -/
structure Scanner where
  cursor : Cursor
  /-- The tokens so far, the last one first. -/
  tokens : List Token := []
  /-- The columns of the open blocks, the innermost first. -/
  indents : List Nat := []
  /-- The place where a key may have started, for every open flow collection from the
      innermost on, and at last for the text around them. -/
  keys : List (Option KeyStart) := [none]
  /-- Whether a key may start here. -/
  keyAllowed : Bool := true
  deriving Repr

namespace Scanner

/-- The indentation of the innermost block; -1 outside of all. -/
def indent (s : Scanner) : Int :=
  match s.indents with
  | [] => -1
  | n :: _ => n

/-- Whether a flow collection is open. -/
def inFlow (s : Scanner) : Bool := 1 < s.keys.length

/-- The scanner with one more token, after `n` characters. -/
def emit (s : Scanner) (t : Token) (n : Nat := 0) : Scanner :=
  { s with tokens := t :: s.tokens, cursor := s.cursor.skip n }

/-- Puts a token in front of those from the given number on. -/
def insertAt (s : Scanner) (number : Nat) (t : Token) : Scanner :=
  let later := s.tokens.length - number
  { s with tokens := s.tokens.take later ++ t :: s.tokens.drop later }

/-- Gives up the place where a key may have started. Where a key is required, that is
    an error. -/
def dropKey (s : Scanner) : Option Scanner :=
  match s.keys with
  | some k :: rest => if k.required then none else some { s with keys := none :: rest }
  | _ => some s

/-- Notes that a key may start here. -/
def saveKey (s : Scanner) : Option Scanner :=
  if s.keyAllowed then do
    let s ← s.dropKey
    let start : KeyStart :=
      { required := !s.inFlow && s.indent == (s.cursor.mark.col : Int)
        number := s.tokens.length
        mark := s.cursor.mark }
    some { s with keys := some start :: s.keys.drop 1 }
  else
    some s

/-- Opens a block at a column right of the indentation; the token for it goes in front
    of those from the given number on. -/
def roll (s : Scanner) (column number : Nat) (t : Token) : Scanner :=
  if !s.inFlow && s.indent < (column : Int) then
    { s.insertAt number t with indents := column :: s.indents }
  else
    s

/-- The number of blocks, from the innermost on, that lie right of a column. -/
def deeper (column : Int) (indents : List Nat) : Nat :=
  (indents.takeWhile fun (n : Nat) => decide (column < (n : Int))).length

/-- Closes the blocks right of a column. -/
def unroll (s : Scanner) (column : Int) : Scanner :=
  if s.inFlow then s
  else
    let n := deeper column s.indents
    { s with
      tokens := List.replicate n .blockEnd ++ s.tokens
      indents := s.indents.drop n }

/-- Goes on to the next token, over blanks, comments and line ends. A tab counts as
    blank where no key may start. -/
def toNextToken (s : Scanner) : Nat → Scanner
  | 0 => s
  | n + 1 =>
    let c := s.cursor
    let c := if c.mark.col = 0 && c.rest.head? = some '\ufeff' then c.skip else c
    let tabs := s.inFlow || !s.keyAllowed
    let c := c.skipWhile fun ch => ch = ' ' || (tabs && ch = '\t')
    let c := if c.rest.head? = some '#' then c.skipToLineEnd else c
    if c.rest.head?.any isBreak then
      toNextToken { s with cursor := c.skipBreak, keyAllowed := s.keyAllowed || !s.inFlow } n
    else
      { s with cursor := c }

/-- Forgets the places that can no longer be keys. -/
def dropStale (s : Scanner) : Option Scanner := do
  let now := s.cursor.mark
  if s.keys.any fun k? => k?.any fun k => k.required && k.isStale now then none
  else some { s with keys := s.keys.map fun k? => k?.filter fun k => !k.isStale now }

/-- Ends what is open before a token that stands for itself at the top. -/
def closeAll (s : Scanner) : Option Scanner := do
  let s ← (s.unroll (-1)).dropKey
  some { s with keyAllowed := false }

/-- The start of a flow collection. -/
def openFlow (s : Scanner) (t : Token) : Option Scanner := do
  let s ← s.saveKey
  some { s.emit t 1 with keys := none :: s.keys, keyAllowed := true }

/-- The end of a flow collection. -/
def closeFlow (s : Scanner) (t : Token) : Option Scanner := do
  let s ← s.dropKey
  let keys := if s.inFlow then s.keys.drop 1 else s.keys
  some { s.emit t 1 with keys, keyAllowed := false }

/-- A comma in a flow collection. -/
def flowComma (s : Scanner) : Option Scanner := do
  let s ← s.dropKey
  some { s.emit .flowEntry 1 with keyAllowed := true }

/-- The mark of an entry of a block sequence. -/
def entryMark (s : Scanner) : Option Scanner := do
  if !s.inFlow && !s.keyAllowed then none
  let s := s.roll s.cursor.mark.col s.tokens.length .blockSequenceStart
  let s ← s.dropKey
  some { s.emit .blockEntry 1 with keyAllowed := true }

/-- The mark of a key. -/
def keyMark (s : Scanner) : Option Scanner := do
  if !s.inFlow && !s.keyAllowed then none
  let s := s.roll s.cursor.mark.col s.tokens.length .blockMappingStart
  let s ← s.dropKey
  some { s.emit .key 1 with keyAllowed := !s.inFlow }

/-- The colon before a value. If a key may have started before it, there it did. -/
def valueMark (s : Scanner) : Option Scanner :=
  match s.keys with
  | some k :: rest =>
    let s := (s.insertAt k.number .key).roll k.mark.col k.number .blockMappingStart
    some { s.emit .value 1 with keys := none :: rest, keyAllowed := false }
  | _ =>
    if !s.inFlow && !s.keyAllowed then none
    else
      let s := s.roll s.cursor.mark.col s.tokens.length .blockMappingStart
      some { s.emit .value 1 with keyAllowed := !s.inFlow }

/-- The name of an anchor or an alias, after its mark. -/
def anchorName (s : Scanner) (make : String → Token) : Option Scanner := do
  let s ← s.saveKey
  let name := (s.cursor.rest.drop 1).takeWhile isWordChar
  let rest := s.cursor.rest.drop (1 + name.length)
  let ends := atGap rest || rest.head?.any fun c =>
    ['?', ':', ',', ']', '\x7d', '%', '@', '\x60'].contains c
  if name.isEmpty || !ends then none
  some { s.emit (make (String.ofList name)) (1 + name.length) with keyAllowed := false }

/-- The value of two hexadecimal digits after a percent sign, for each such escape at
    the front of a text. -/
def uriEscape? : List Char → Option (UInt8 × List Char)
  | '%' :: a :: b :: rest =>
    (Toml.hexNumber? [a, b]).map fun n => (UInt8.ofNat n, rest)
  | _ => none

/-- Whether a character can stand in the identifier of a tag. -/
def isUriChar (c : Char) : Bool :=
  isWordChar c || [';', '/', '?', ':', '@', '&', '=', '+', '$', ',', '.', '!', '~', '*', '\'', '(',
    ')', '[', ']', '%'].contains c

/-- The bytes that the characters of an identifier stand for. -/
def uriBytes : Nat → List Char → Option Bytes
  | 0, _ => some []
  | _, [] => some []
  | n + 1, c :: rest =>
    if c = '%' then
      match uriEscape? (c :: rest) with
      | some (b, rest) => (uriBytes n rest).map (b :: ·)
      | none => none
    else (uriBytes n rest).map (Bytes.ofChars [c] ++ ·)

/-- The text of an identifier, its escapes replaced. -/
def uriText (uri : List Char) : Option String := do
  let bytes ← uriBytes uri.length uri
  let chars ← Glyph.wellFormed? bytes
  some (String.ofList chars)

/-- A tag, in one of its three forms. -/
def tagMark (s : Scanner) : Option Scanner := do
  let s ← s.saveKey
  let text := s.cursor.rest.drop 1
  let (token, length) ←
    match text with
    | '<' :: inner =>
      let uri := inner.takeWhile isUriChar
      if uri.isEmpty || (inner.drop uri.length).head? != some '>' then none
      else (uriText uri).map fun suffix => (Token.tag "" suffix, uri.length + 3)
    | _ =>
      let name := text.takeWhile isWordChar
      match text.drop name.length with
      | '!' :: inner =>
        let uri := inner.takeWhile isUriChar
        if uri.isEmpty then none
        else (uriText uri).map fun suffix =>
          (Token.tag (String.ofList ('!' :: name ++ ['!'])) suffix, name.length + 2 + uri.length)
      | _ =>
        let uri := text.takeWhile isUriChar
        (uriText uri).map fun suffix =>
          (if uri.isEmpty then Token.tag "" "!" else Token.tag "!" suffix, 1 + uri.length)
  let s := s.emit token length
  if !atGap s.cursor.rest then none
  some { s with keyAllowed := false }

/-- A scalar between apostrophes or quotes. -/
def quotedScalar (s : Scanner) (single : Bool) : Option Scanner := do
  let s ← s.saveKey
  let c := s.cursor.skip
  let (text, next) ←
    if single then apostrophesOnto [] {} c.mark c.rest else quotesOnto [] {} c.mark c.rest
  some { s.emit (.scalar text false) with cursor := next, keyAllowed := false }

/-- A block scalar. -/
def block (s : Scanner) (literal : Bool) : Option Scanner := do
  let s ← s.dropKey
  let (text, next) ← blockScalar literal s.indent s.cursor.skip
  some { s.emit (.scalar text false) with cursor := next, keyAllowed := true }

/-- A plain scalar. -/
def plain (s : Scanner) : Option Scanner := do
  let s ← s.saveKey
  let p ← plainOnto s.inFlow (s.indent + 1) [] {} s.cursor.mark s.cursor.rest
  some { s.emit (.scalar p.text true) with cursor := p.next, keyAllowed := p.broken }

/-- The digits of a version number, at most nine. -/
def versionNumber (c : Cursor) : Option (Nat × Cursor) :=
  let digits := c.rest.takeWhile Char.isDigit
  if digits.isEmpty || 9 < digits.length then none
  else some (digits.foldl (fun n d => n * 10 + (d.toNat - '0'.toNat)) 0, c.skip digits.length)

/-- The token of a directive, after its name. -/
def directiveToken (name : String) (c : Cursor) : Option (Token × Cursor) := do
  let c := c.skipWhile isGap
  if name = "YAML" then
    let (major, c) ← versionNumber c
    if c.rest.head? != some '.' then none
    let (minor, c) ← versionNumber c.skip
    some (.version major minor, c)
  else if name = "TAG" then
    let '!' :: text := c.rest | none
    let word := text.takeWhile isWordChar
    let closed := (text.drop word.length).head? = some '!'
    if !closed && !word.isEmpty then none
    let handle := '!' :: word ++ (if closed then ['!'] else [])
    let c := c.skip handle.length
    if !(c.rest.head?.any isGap) then none
    let c := c.skipWhile isGap
    let uri := c.rest.takeWhile isUriChar
    if uri.isEmpty then none
    let text ← uriText uri
    some (.tagHandle (String.ofList handle) text, c.skip uri.length)
  else none

/-- A directive. -/
def directive (s : Scanner) : Option Scanner := do
  let s ← s.closeAll
  let name := (s.cursor.rest.drop 1).takeWhile isWordChar
  let c := s.cursor.skip (1 + name.length)
  if name.isEmpty || !atGap c.rest then none
  let (token, c) ← directiveToken (String.ofList name) c
  let c := c.skipWhile isGap
  let c := if c.rest.head? = some '#' then c.skipToLineEnd else c
  if !atLineEnd c.rest then none
  some { s.emit token with cursor := c.skipBreak }

/-- The marks that a plain scalar cannot start with. -/
def isIndicator (c : Char) : Bool :=
  ['-', '?', ':', ',', '[', ']', '\x7b', '\x7d', '#', '&', '*', '!', '|', '>', '\'', '"', '%',
    '@', '\x60'].contains c

/-- Scans the token at the cursor. -/
def token (s : Scanner) : Option Scanner :=
  match s.cursor.rest with
  | [] => s.closeAll.map (·.emit .streamEnd)
  | c :: rest =>
    let atStart := s.cursor.mark.col = 0
    if atStart && c = '%' then s.directive
    else if atStart && atDocumentMark (c :: rest) then
      s.closeAll.map (·.emit (if c = '-' then .documentStart else .documentEnd) 3)
    else if c = '[' then s.openFlow .flowSequenceStart
    else if c = '\x7b' then s.openFlow .flowMappingStart
    else if c = ']' then s.closeFlow .flowSequenceEnd
    else if c = '\x7d' then s.closeFlow .flowMappingEnd
    else if c = ',' then s.flowComma
    else if c = '-' && atGap rest then s.entryMark
    else if c = '?' && (s.inFlow || atGap rest) then s.keyMark
    else if c = ':' && (s.inFlow || atGap rest) then s.valueMark
    else if c = '*' then s.anchorName .alias
    else if c = '&' then s.anchorName .anchor
    else if c = '!' then s.tagMark
    else if c = '|' && !s.inFlow then s.block true
    else if c = '>' && !s.inFlow then s.block false
    else if c = '\'' then s.quotedScalar true
    else if c = '"' then s.quotedScalar false
    else if (!isGap c && !isIndicator c) || c = '-' ||
        (!s.inFlow && (c = '?' || c = ':') && !atGap rest) then s.plain
    else none

/-- Goes to the next token and scans it. -/
def next (s : Scanner) : Option Scanner := do
  let s := s.toNextToken (s.cursor.rest.length + 1)
  let s ← s.dropStale
  (s.unroll s.cursor.mark.col).token

/-- Whether the end of the text has been scanned. -/
def isDone (s : Scanner) : Bool := s.tokens.head? = some .streamEnd

/-- Scans up to the end of the text or the first error. The flag says that there was
    no error. -/
def run : Nat → Scanner → List Token × Bool
  | 0, s => (s.tokens.reverse, false)
  | n + 1, s =>
    match s.next with
    | none => (s.tokens.reverse, false)
    | some s => if s.isDone then (s.tokens.reverse, true) else run n s

end Scanner

/-- Whether a character may stand in a YAML text. -/
def isAllowed (c : Char) : Bool :=
  let n := c.toNat
  n = 0x09 || n = 0x0A || n = 0x0D || (0x20 ≤ n && n ≤ 0x7E) || n = 0x85 ||
    (0xA0 ≤ n && n ≤ 0xFFFD) || 0x10000 ≤ n

/-- The characters of a YAML text, without a byte order mark in front. The mark also
    tells text in units of two bytes from text in single bytes. -/
def characters (bytes : Bytes) : Option (List Char) := do
  let chars ←
    match bytes with
    | 0xFF :: 0xFE :: rest => Units.chars? .lowFirst rest
    | 0xFE :: 0xFF :: rest => Units.chars? .highFirst rest
    | 0xEF :: 0xBB :: 0xBF :: rest => Glyph.wellFormed? rest
    | _ => Glyph.wellFormed? bytes
  if chars.all isAllowed then some chars else none

/-- The tokens of a text up to its end or the first error, and whether there was
    none. -/
def scan (text : List Char) : List Token × Bool :=
  Scanner.run (text.length + 2) { cursor := { rest := text } }

end TapeCompiler.Yaml
