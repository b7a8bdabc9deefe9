import Mathlib.Logic.Function.Basic
import TapeCompiler.Proofs.Lexeme
import TapeCompiler.Proofs.Reference

/-!
# A machine for assembly text

The part of x86-64 that generated text uses. Text is read line by line
(`Machine.read`): a line is a label, an instruction, or a directive that only matters
to the assembler. A symbol that is defined twice is refused, as the assembler would.

The machine goes through the lines (`Machine.step`). Memory is a byte for each 64-bit
address; the stack is kept apart from it. What the text leaves open is for a
`Platform` to say: where the linker puts symbols, and what a call leaves in the
registers that it need not preserve. Calls preserve `%rbx`.
-/

namespace TapeCompiler

/-- The state of the machine. -/
structure Machine where
  /-- The index of the line to execute next. -/
  line : Nat
  rbx : UInt64
  eax : UInt32
  edi : UInt32
  /-- The zero flag. -/
  zero : Bool
  /-- What was pushed, last first. -/
  stack : List UInt64
  memory : UInt64 → UInt8
  /-- The input not read yet. -/
  input : Bytes
  /-- The output so far. -/
  output : Bytes

namespace Machine

/-- The library functions that can be called. -/
inductive Callee
  | putChar
  | getChar
  deriving DecidableEq, Repr

/-- The instructions. Those with a count take it as an immediate operand; the other
    operands are the same wherever an instruction occurs. -/
inductive Instruction
  /-- Add to `%rbx`. -/
  | addq (n : Nat)
  /-- Subtract from `%rbx`. -/
  | subq (n : Nat)
  /-- Add to the byte at `%rbx`. -/
  | addb (n : Nat)
  /-- Subtract from the byte at `%rbx`. -/
  | subb (n : Nat)
  /-- Compare the byte at `%rbx`. -/
  | cmpb (n : Nat)
  /-- Load the byte at `%rbx` into `%edi`, with zeros before it. -/
  | movzbl
  /-- Store the low byte of `%eax` at `%rbx`. -/
  | movb
  /-- Load the address of a symbol into `%rbx`. -/
  | leaq (symbol : String)
  /-- Set `%eax` to zero. -/
  | xorl
  /-- Save `%rbx` on the stack. -/
  | pushq
  /-- Take `%rbx` back from the stack. -/
  | popq
  | call (callee : Callee)
  | jmp (label : String)
  /-- Jump unless the zero flag is set. -/
  | jne (label : String)
  | ret
  deriving DecidableEq, Repr

/-- The lines of assembly text. -/
inductive Line
  | label (name : String)
  | instruction (i : Instruction)
  /-- A directive, or nothing. -/
  | directive
  deriving DecidableEq, Repr

/-! ## Reading text -/

/-- Blanks separate words, and a comma is a lexeme of its own. -/
def kind (c : Char) : Lexeme.Kind :=
  if c = ' ' then .blank else if c = ',' then .alone else .word

/-- An immediate operand. -/
def immediate? (operand : String) : Option Nat :=
  match operand.toList with
  | '$' :: digits => Lexeme.number? (String.ofList digits)
  | _ => none

/-- The symbol of an operand that is relative to the instruction pointer. -/
def relative? (operand : String) : Option String :=
  (operand.toList.dropSuffix? "(%rip)".toList).map String.ofList

/-- The instruction with the given name and operands. -/
def instruction? (op : String) (operands : List String) : Option Instruction :=
  match op, operands with
  | "addq", [n, ",", "%rbx"] => (immediate? n).map .addq
  | "subq", [n, ",", "%rbx"] => (immediate? n).map .subq
  | "addb", [n, ",", "(%rbx)"] => (immediate? n).map .addb
  | "subb", [n, ",", "(%rbx)"] => (immediate? n).map .subb
  | "cmpb", [n, ",", "(%rbx)"] => (immediate? n).map .cmpb
  | "movzbl", ["(%rbx)", ",", "%edi"] => some .movzbl
  | "movb", ["%al", ",", "(%rbx)"] => some .movb
  | "leaq", [symbol, ",", "%rbx"] => (relative? symbol).map .leaq
  | "xorl", ["%eax", ",", "%eax"] => some .xorl
  | "pushq", ["%rbx"] => some .pushq
  | "popq", ["%rbx"] => some .popq
  | "call", ["putchar@PLT"] => some (.call .putChar)
  | "call", ["getchar@PLT"] => some (.call .getChar)
  | "jmp", [label] => some (.jmp label)
  | "jne", [label] => some (.jne label)
  | "ret", [] => some .ret
  | _, _ => none

/-- A line with the given lexemes: a name with a colon is a label, and what starts
    with a dot a directive. -/
def line? : List String → Option Line
  | [] => some .directive
  | op :: operands =>
    if op.toList.getLast? = some ':' ∧ operands = [] then
      some (.label (String.ofList op.toList.dropLast))
    else if op.toList.head? = some '.' then
      some .directive
    else
      (instruction? op operands).map .instruction

/-- What is written on a line. -/
def readLine (text : List Char) : Option Line :=
  line? (Lexeme.read kind text)

/-- The symbol that a line defines. -/
def Line.symbol? : Line → Option String
  | label name => some name
  | _ => none

/-- The symbols that are defined, in order. -/
def symbols (code : List Line) : List String :=
  code.filterMap Line.symbol?

/-- The lines of a text, if it is assembly text that defines no symbol twice. -/
def read (text : String) : Option (List Line) := do
  let code ← (text.toList.splitOn '\n').mapM readLine
  if (symbols code).Nodup then some code else none

/-! ## Execution -/

/-- What a call leaves in the registers that it need not preserve. -/
structure Scratch where
  eax : UInt32
  edi : UInt32
  zero : Bool

/-- What the text leaves open. -/
structure Platform where
  /-- Where the linker puts a symbol. -/
  address : String → UInt64
  /-- What a call leaves behind, besides what it is made for. -/
  scratch : Machine → Scratch

/-- Go on to the next line. -/
def next (m : Machine) : Machine :=
  { m with line := m.line + 1 }

/-- The byte at `%rbx`. -/
def byte (m : Machine) : UInt8 :=
  m.memory m.rbx

/-- Put a value into the byte at `%rbx`. -/
def store (m : Machine) (v : UInt8) : Machine :=
  { m with memory := Function.update m.memory m.rbx v }

/-- Return from a call. -/
def clobber (m : Machine) (s : Scratch) : Machine :=
  { m with eax := s.eax, edi := s.edi, zero := s.zero }

/-- Go on at a label, if the text defines it. -/
def jump (code : List Line) (m : Machine) (label : String) : Option Machine :=
  (code.idxOf? (.label label)).map fun i => { m with line := i }

/-- Execute an instruction. Returning ends the run. -/
def execute (code : List Line) (p : Platform) (m : Machine) : Instruction → Option Machine
  | .addq n =>
    let v := m.rbx + UInt64.ofNat n
    some { m.next with rbx := v, zero := v = 0 }
  | .subq n =>
    let v := m.rbx - UInt64.ofNat n
    some { m.next with rbx := v, zero := v = 0 }
  | .addb n =>
    let v := m.byte + UInt8.ofNat n
    some { m.next.store v with zero := v = 0 }
  | .subb n =>
    let v := m.byte - UInt8.ofNat n
    some { m.next.store v with zero := v = 0 }
  | .cmpb n => some { m.next with zero := m.byte = UInt8.ofNat n }
  | .movzbl => some { m.next with edi := m.byte.toUInt32 }
  | .movb => some (m.next.store m.eax.toUInt8)
  | .leaq symbol =>
    if .label symbol ∈ code then some { m.next with rbx := p.address symbol } else none
  | .xorl => some { m.next with eax := 0, zero := true }
  | .pushq => some { m.next with stack := m.rbx :: m.stack }
  | .popq =>
    match m.stack with
    | [] => none
    | v :: stack => some { m.next with rbx := v, stack }
  | .call .putChar =>
    some { m.next.clobber (p.scratch m) with output := m.output ++ [m.edi.toUInt8] }
  | .call .getChar =>
    match m.input with
    -- The end of the input is reported as -1.
    | [] => some { m.next.clobber (p.scratch m) with eax := 0xFFFFFFFF }
    | b :: rest => some { m.next.clobber (p.scratch m) with eax := b.toUInt32, input := rest }
  | .jmp label => m.jump code label
  | .jne label => if m.zero then some m.next else m.jump code label
  | .ret => none

/-- Execute the next line. Labels do nothing, and directives cannot be executed. -/
def step (code : List Line) (p : Platform) (m : Machine) : Option Machine :=
  match code[m.line]? with
  | some (.label _) => some m.next
  | some (.instruction i) => m.execute code p i
  | some .directive | none => none

end Machine

end TapeCompiler
