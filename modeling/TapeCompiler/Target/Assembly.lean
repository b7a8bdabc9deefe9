import TapeCompiler.Target.Basic

/-!
# The assembly target

x86-64 in the notation of the GNU assembler. The data pointer lives in `%rbx`,
which calls to the library preserve. `main` saves it on entry, which also leaves
the stack aligned for these calls.

A loop jumps to its test first; the test follows the body and leads back to it.
-/

namespace TapeCompiler.Assembly

/-- An instruction or directive. The operands start in column 17 if the operation
    is short enough, and after one blank otherwise. -/
def inst (op operands : String) : String :=
  if operands = "" then
    "        " ++ op
  else
    let padding := String.ofList (List.replicate (7 - op.length) ' ')
    "        " ++ op ++ padding ++ " " ++ operands

/-- A counted step. Byte immediates must fit eight bits, so the count of a cell
    change is reduced to the value it adds. -/
def step (s : Step) (n : Int) : Chunk :=
  match s with
  | .moveRight => [inst "addq" s!"${n}, %rbx"]
  | .moveLeft => [inst "subq" s!"${n}, %rbx"]
  | .increment => [inst "addb" s!"${Layout.wrap n}, (%rbx)"]
  | .decrement => [inst "subb" s!"${Layout.wrap n}, (%rbx)"]

/-- The assembly target. -/
def target : Target where
  name := "asm"
  extension := ".S"
  prologue := [
    inst ".text" "",
    inst ".globl" Layout.entry,
    inst ".type" (Layout.entry ++ ", @function"),
    Layout.entry ++ ":",
    inst "pushq" "%rbx",
    inst "leaq" (Layout.tape ++ "(%rip), %rbx")]
  epilogue := [
    inst "xorl" "%eax, %eax",
    inst "popq" "%rbx",
    inst "ret" "",
    inst ".size" (Layout.entry ++ ", .-" ++ Layout.entry),
    "",
    inst ".bss" "",
    inst ".align" "32",
    inst ".type" (Layout.tape ++ ", @object"),
    inst ".size" s!"{Layout.tape}, {Layout.tapeSize}",
    Layout.tape ++ ":",
    inst ".zero" (toString Layout.tapeSize),
    "",
    inst ".section" ".note.GNU-stack,\"\",@progbits"]
  step := step
  printChar := [inst "movzbl" "(%rbx), %edi", inst "call" (Layout.putChar ++ "@PLT")]
  readChar := [inst "call" (Layout.getChar ++ "@PLT"), inst "movb" "%al, (%rbx)"]
  loopEnter l := [inst "jmp" ("." ++ l.condition), "." ++ l.body ++ ":"]
  loopExit l := ["." ++ l.condition ++ ":", inst "cmpb" "$0, (%rbx)", inst "jne" ("." ++ l.body)]

end TapeCompiler.Assembly
