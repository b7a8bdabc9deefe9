import TapeCompiler.Toml.Text
import TapeCompiler.Yaml.Cursor

/-!
# Scalars of YAML

A scalar is written plainly, between apostrophes, between quotes, or as a block
after `|` or `>`. Over several lines the first three fold: one line end becomes a
blank, and of more than one the first is dropped. Each reader starts after the mark
that opens the scalar and gives its text and the place after it.
-/

namespace TapeCompiler.Yaml

/-- The blanks and line ends between two runs of characters. Texts stand last
    character first. -/
structure Fold where
  /-- The blanks before the first line end. -/
  blanks : List Char := []
  /-- Whether a line has ended. -/
  broken : Bool := false
  /-- The first line end; none if it was escaped. -/
  first? : Option Char := none
  /-- The further line ends. -/
  more : List Char := []
  deriving Repr

namespace Fold

/-- Adds a blank. After a line end it does not count. -/
def blank (f : Fold) (c : Char) : Fold :=
  if f.broken then f else { f with blanks := c :: f.blanks }

/-- Adds a line end. -/
def newline (f : Fold) (c : Char) : Fold :=
  if f.broken then { f with more := breakChar c :: f.more }
  else { broken := true, first? := some (breakChar c) }

/-- Whether there is nothing between. -/
def isNothing (f : Fold) : Bool := f.blanks.isEmpty && !f.broken

/-- What stands for the fold in the text, put on the text before it. -/
def onto (f : Fold) (acc : List Char) : List Char :=
  if !f.broken then f.blanks ++ acc
  else
    match f.first? with
    | none => f.more ++ acc
    | some '\n' => if f.more.isEmpty then ' ' :: acc else f.more ++ acc
    | some c => f.more ++ c :: acc

end Fold

/-- The characters that end a plain scalar inside a flow collection. -/
def endsFlowPlain (c : Char) : Bool :=
  [',', '?', '[', ']', '\x7b', '\x7d'].contains c

/-- A plain scalar as it was read. -/
structure Plain where
  text : String
  next : Cursor
  /-- Whether line ends were passed after the scalar. -/
  broken : Bool
  deriving Repr

/-- Reads a plain scalar. In a block, lines that start left of `indent` do not belong
    to it; a tab there is an error. -/
def plainOnto (inFlow : Bool) (indent : Int) (acc : List Char) (fold : Fold) (mark : Mark) :
    List Char → Option Plain
  | [] => some ⟨String.ofList acc.reverse, ⟨[], mark⟩, fold.broken⟩
  | '\r' :: '\n' :: rest => plainOnto inFlow indent acc (fold.newline '\n') (mark.down 2) rest
  | c :: rest =>
    if isBreak c then
      plainOnto inFlow indent acc (fold.newline c) mark.down rest
    else if isGap c then
      if fold.broken && (mark.col : Int) < indent && c = '\t' then none
      else plainOnto inFlow indent acc (fold.blank c) mark.right rest
    else if (mark.col = 0 && atDocumentMark (c :: rest)) ||
        (!fold.isNothing && (c = '#' || (!inFlow && (mark.col : Int) < indent))) ||
        (c = ':' && atGap rest) || (inFlow && endsFlowPlain c) then
      some ⟨String.ofList acc.reverse, ⟨c :: rest, mark⟩, fold.broken⟩
    else
      plainOnto inFlow indent (c :: fold.onto acc) {} mark.right rest

/-- Reads a scalar between apostrophes; two of them stand for one. -/
def apostrophesOnto (acc : List Char) (fold : Fold) (mark : Mark) :
    List Char → Option (String × Cursor)
  | [] => none
  | '\r' :: '\n' :: rest => apostrophesOnto acc (fold.newline '\n') (mark.down 2) rest
  | '\'' :: '\'' :: rest => apostrophesOnto ('\'' :: fold.onto acc) {} (mark.right 2) rest
  | c :: rest =>
    if isBreak c then apostrophesOnto acc (fold.newline c) mark.down rest
    else if isGap c then apostrophesOnto acc (fold.blank c) mark.right rest
    else if c = '\'' then
      some (String.ofList (fold.onto acc).reverse, ⟨rest, mark.right⟩)
    else if mark.col = 0 && atDocumentMark (c :: rest) then none
    else apostrophesOnto (c :: fold.onto acc) {} mark.right rest

/-- The character that a one-letter escape stands for. -/
def escaped? (c : Char) : Option Char :=
  match c with
  | '0' => some '\x00'
  | 'a' => some '\x07'
  | 'b' => some '\x08'
  | 't' => some '\t'
  | '\t' => some '\t'
  | 'n' => some '\n'
  | 'v' => some '\x0b'
  | 'f' => some '\x0c'
  | 'r' => some '\r'
  | 'e' => some '\x1b'
  | ' ' => some ' '
  | '"' => some '"'
  | '\'' => some '\''
  | '/' => some '/'
  | '\\' => some '\\'
  | 'N' => some '\u0085'
  | '_' => some '\u00a0'
  | 'L' => some '\u2028'
  | 'P' => some '\u2029'
  | _ => none

/-- Reads a scalar between quotes, where a backslash starts an escape. An escaped line
    end is dropped. -/
def quotesOnto (acc : List Char) (fold : Fold) (mark : Mark) :
    List Char → Option (String × Cursor)
  | [] => none
  | '\r' :: '\n' :: rest => quotesOnto acc (fold.newline '\n') (mark.down 2) rest
  | '\\' :: '\r' :: '\n' :: rest =>
    quotesOnto (fold.onto acc) { broken := true } ((mark.right).down 2) rest
  | '\\' :: 'x' :: a :: b :: rest =>
    match Toml.hexChar? [a, b] with
    | some c => quotesOnto (c :: fold.onto acc) {} (mark.right 4) rest
    | none => none
  | '\\' :: 'u' :: a :: b :: c :: d :: rest =>
    match Toml.hexChar? [a, b, c, d] with
    | some c => quotesOnto (c :: fold.onto acc) {} (mark.right 6) rest
    | none => none
  | '\\' :: 'U' :: a :: b :: c :: d :: e :: f :: g :: h :: rest =>
    match Toml.hexChar? [a, b, c, d, e, f, g, h] with
    | some c => quotesOnto (c :: fold.onto acc) {} (mark.right 10) rest
    | none => none
  | '\\' :: c :: rest =>
    if isBreak c then quotesOnto (fold.onto acc) { broken := true } (mark.right).down rest
    else
      match escaped? c with
      | some c => quotesOnto (c :: fold.onto acc) {} (mark.right 2) rest
      | none => none
  | c :: rest =>
    if isBreak c then quotesOnto acc (fold.newline c) mark.down rest
    else if isGap c then quotesOnto acc (fold.blank c) mark.right rest
    else if c = '"' then some (String.ofList (fold.onto acc).reverse, ⟨rest, mark.right⟩)
    else if mark.col = 0 && atDocumentMark (c :: rest) then none
    else quotesOnto (c :: fold.onto acc) {} mark.right rest

/-! ## Blocks -/

/-- What becomes of the line ends after the last line of a block. -/
inductive Chomping where
  | strip
  | clip
  | keep
  deriving DecidableEq, Repr

/-- The header of a block: its chomping and its indentation, zero if it is to be
    found out. -/
structure BlockHeader where
  chomping : Chomping := .clip
  increment : Nat := 0
  deriving Repr

/-- The chomping that a character asks for. -/
def chomping? (c : Char) : Option Chomping :=
  if c = '+' then some .keep else if c = '-' then some .strip else none

/-- Reads the two indicators of a block header, in either order. -/
def blockHeader (c : Cursor) : Option (BlockHeader × Cursor) :=
  let digit? := fun (d : Char) => if d.isDigit then some (d.toNat - '0'.toNat) else none
  let step := fun (d : Char) (h : BlockHeader) (next : Cursor) =>
    match digit? d with
    | some 0 => none
    | some n => some ({ h with increment := n }, next)
    | none => some (h, c)
  match c.rest with
  | a :: rest =>
    match chomping? a with
    | some k =>
      match rest with
      | d :: _ =>
        if d.isDigit then step d { chomping := k } (c.skip 2) else some ({ chomping := k }, c.skip)
      | [] => some ({ chomping := k }, c.skip)
    | none =>
      match step a {} c.skip, rest with
      | some (h, next), b :: _ =>
        match chomping? b with
        | some k => if h.increment = 0 then some (h, next) else some ({ h with chomping := k }, c.skip 2)
        | none => some (h, next)
      | other, _ => other
  | [] => some ({}, c)

/-- The empty lines at a cursor, and the place on the next line after as many blanks as
    the indentation asks for. The widest column is recorded to find out an
    indentation; a tab in place of indentation is an error. -/
def blockBreaks (indent : Nat) (breaks : List Char) (widest : Nat) :
    Nat → Cursor → Option (List Char × Nat × Cursor)
  | 0, _ => none
  | n + 1, c =>
    let room := if indent = 0 then c.rest.length else indent - c.mark.col
    let here := c.skip ((c.rest.take room).takeWhile (· = ' ')).length
    let widest := max widest here.mark.col
    if (indent = 0 || here.mark.col < indent) && here.rest.head? = some '\t' then none
    else if here.rest.head?.any isBreak then
      blockBreaks indent (here.breakText ++ breaks) widest n here.skipBreak
    else some (breaks, widest, here)

/-- A block being read. Texts stand last character first. -/
structure Block where
  text : List Char := []
  /-- The line end of the last line. -/
  lineEnd : List Char := []
  /-- The line ends of the empty lines after it. -/
  breaks : List Char := []
  /-- Whether the last line started with a blank. -/
  blankStart : Bool := false
  deriving Repr

/-- Reads the lines of a block at its indentation. -/
def blockLines (literal : Bool) (indent : Nat) (b : Block) :
    Nat → Cursor → Option (Block × Cursor)
  | 0, _ => none
  | n + 1, c =>
    if c.mark.col != indent || c.rest.isEmpty then some (b, c)
    else
      let blank := c.rest.head?.any isGap
      let joined :=
        if !literal && !b.blankStart && !blank && b.lineEnd = ['\n'] then
          if b.breaks.isEmpty then ' ' :: b.text else b.breaks ++ b.text
        else b.breaks ++ b.lineEnd ++ b.text
      let line := c.rest.takeWhile (!isBreak ·)
      let after := c.skip line.length
      let lineEnd := after.breakText
      match blockBreaks indent [] 0 (n + 1) after.skipBreak with
      | none => none
      | some (breaks, _, next) =>
        blockLines literal indent ⟨line.reverse ++ joined, lineEnd, breaks, blank⟩ n next

/-- Reads a block scalar after its indicator; `outer` is the indentation around it. -/
def blockScalar (literal : Bool) (outer : Int) (c : Cursor) : Option (String × Cursor) := do
  let (header, c) ← blockHeader c
  let c := c.skipWhile isGap
  let c := if c.rest.head? = some '#' then c.skipToLineEnd else c
  if !atLineEnd c.rest then none
  let c := c.skipBreak
  let fuel := c.rest.length + 2
  let asked := if header.increment = 0 then 0 else (max outer 0).toNat + header.increment
  let (breaks, widest, c) ← blockBreaks asked [] 0 fuel c
  let indent := if asked != 0 then asked else max (max widest (outer + 1).toNat) 1
  let (b, c) ← blockLines literal indent { breaks } fuel c
  let tail := match header.chomping with
    | .strip => b.text
    | .clip => b.lineEnd ++ b.text
    | .keep => b.breaks ++ b.lineEnd ++ b.text
  some (String.ofList tail.reverse, c)

end TapeCompiler.Yaml
