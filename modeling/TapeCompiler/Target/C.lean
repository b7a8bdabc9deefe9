import TapeCompiler.Target.Basic

/-!
# The C target

A C99 program. Loops become `while` statements, so the labels of a loop are only
comments, which line up with the assembly. Cells are `unsigned char`, which wraps
as the assembly does.
-/

namespace TapeCompiler.C

/-- An indented line. -/
def line (text : String) : String :=
  "    " ++ text

/-- A counted step. -/
def step (s : Step) (n : Int) : Chunk :=
  match s with
  | .moveRight => [line s!"{Layout.pointer} += {n};"]
  | .moveLeft => [line s!"{Layout.pointer} -= {n};"]
  | .increment => [line s!"*{Layout.pointer} += {n};"]
  | .decrement => [line s!"*{Layout.pointer} -= {n};"]

/-- The C target. -/
def target : Target where
  name := "c"
  extension := ".c"
  prologue := [
    "#include <stdio.h>",
    "",
    s!"static unsigned char {Layout.tape}[{Layout.tapeSize}];",
    "",
    s!"int {Layout.entry}(void)",
    "\x7b",
    line s!"unsigned char *{Layout.pointer} = {Layout.tape};"]
  epilogue := [line "return 0;", "\x7d"]
  step := step
  printChar := [line s!"{Layout.putChar}(*{Layout.pointer});"]
  readChar := [line s!"*{Layout.pointer} = (unsigned char){Layout.getChar}();"]
  loopEnter l := [line ("while (*" ++ Layout.pointer ++ ") \x7b /* " ++ l.body ++ " */")]
  loopExit l := [line ("\x7d /* " ++ l.condition ++ " */")]

end TapeCompiler.C
