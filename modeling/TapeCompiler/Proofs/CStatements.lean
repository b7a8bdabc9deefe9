import TapeCompiler.Proofs.Lexeme
import TapeCompiler.Proofs.Reference

/-!
# Statements of C text

The part of C that generated text uses. Text is read (`C.read`) as a fixed prologue
and a fixed epilogue around a list of statements: updates of the pointer and of the
cell it points at, calls of `putchar` and `getchar`, and `while` statements, which may
be nested. Comments are taken out first and separate like a blank.

Statements are executed one after the other (`C.Execution.step`). The value assigned
to a cell is computed with exact integers and then converted to `unsigned char`; the
pointer is not checked.
-/

namespace TapeCompiler.C

/-- The statements. -/
inductive Statement
  /-- Add to the pointer. -/
  | move (n : Int)
  /-- Add to the cell. -/
  | change (n : Int)
  /-- Write the cell. -/
  | put
  /-- Read a character into the cell. -/
  | get
  /-- Execute the body while the cell is not zero. -/
  | loop (body : List Statement)

/-! ## Reading text -/

/-- The text without its comments; `inside` says whether a comment is open. There is
    no text if a comment is left open. -/
def uncomment (inside : Bool) : List Char → Option (List Char)
  | [] => if inside then none else some []
  | [c] => if inside then none else some [c]
  | c :: d :: cs =>
    if inside then
      if c = '*' ∧ d = '/' then (uncomment false cs).map (' ' :: ·) else uncomment true (d :: cs)
    else if c = '/' ∧ d = '*' then
      uncomment true cs
    else
      (uncomment false (d :: cs)).map (c :: ·)

/-- Names and numbers are words, and assignments are operators. -/
def kind (c : Char) : Lexeme.Kind :=
  if c = ' ' ∨ c = '\n' then .blank
  else if c.isAlphanum ∨ c = '_' then .word
  else if c = '+' ∨ c = '-' ∨ c = '=' then .operator
  else .alone

/-- The statement with the given lexemes, which a semicolon ends. -/
def statement? : List String → Option Statement
  | ["ptr", "+=", n] => (Lexeme.number? n).map fun n => .move n
  | ["ptr", "-=", n] => (Lexeme.number? n).map fun n => .move (-n)
  | ["*", "ptr", "+=", n] => (Lexeme.number? n).map fun n => .change n
  | ["*", "ptr", "-=", n] => (Lexeme.number? n).map fun n => .change (-n)
  | ["putchar", "(", "*", "ptr", ")"] => some .put
  | ["*", "ptr", "=", "(", "unsigned", "char", ")", "getchar", "(", ")"] => some .get
  | _ => none

/-- What has been read. -/
structure Reading where
  /-- The statements before each loop that is open, last first, innermost loop first. -/
  outer : List (List Statement) := []
  /-- The statements of the innermost block, last first. -/
  block : List Statement := []
  /-- The lexemes since the last statement. -/
  pending : List String := []

namespace Reading

/-- Read a lexeme. -/
def take (r : Reading) (lexeme : String) : Option Reading :=
  match lexeme, r.outer with
  | ";", _ => (statement? r.pending).map fun s => { r with block := s :: r.block, pending := [] }
  | "\x7b", _ =>
    if r.pending = ["while", "(", "*", "ptr", ")"] then some { outer := r.block :: r.outer } else none
  | "\x7d", before :: outer =>
    if r.pending = [] then some { outer, block := .loop r.block.reverse :: before } else none
  | "\x7d", [] => none
  | _, _ => some { r with pending := r.pending ++ [lexeme] }

/-- The statements that have been read, if nothing is open. -/
def finish (r : Reading) : Option (List Statement) :=
  if r.outer = [] ∧ r.pending = [] then some r.block.reverse else none

end Reading

/-- What stands before the statements. -/
def prologue : String :=
  "#include <stdio.h>\n\nstatic unsigned char tape[30000];\n\nint main(void)\n\x7b\n" ++
    "    unsigned char *ptr = tape;\n"

/-- What stands after the statements. -/
def epilogue : String :=
  "    return 0;\n\x7d\n"

/-- The statements of a text, if it is C text of the kind that is generated. -/
def read (text : String) : Option (List Statement) := do
  let rest ← text.toList.dropPrefix? prologue.toList
  let inner ← rest.dropSuffix? epilogue.toList
  let inner ← uncomment false inner
  let r ← (Lexeme.read kind inner).foldlM Reading.take {}
  r.finish

/-! ## Execution -/

/-- Statements being executed: those left to do, and the tape, whose data pointer is
    `ptr`. -/
structure Execution where
  todo : List Statement
  tape : Tape

/-- Execute the first statement, or test the loop that stands first. -/
def Execution.step : Execution → Option Execution
  | ⟨[], _⟩ => none
  | ⟨.move n :: rest, t⟩ => some ⟨rest, { t with pointer := t.pointer + UInt64.ofInt n }⟩
  | ⟨.change n :: rest, t⟩ => some ⟨rest, t.store (UInt8.ofInt (t.cell.toNat + n))⟩
  | ⟨.put :: rest, t⟩ => some ⟨rest, { t with output := t.output ++ [t.cell] }⟩
  | ⟨.get :: rest, t⟩ =>
    match t.input with
    -- The end of the input is reported as -1.
    | [] => some ⟨rest, t.store (UInt8.ofInt (-1))⟩
    | b :: input => some ⟨rest, { t.store (UInt8.ofInt b.toNat) with input }⟩
  | ⟨.loop body :: rest, t⟩ =>
    if t.cell = 0 then some ⟨rest, t⟩ else some ⟨body ++ .loop body :: rest, t⟩

end TapeCompiler.C
