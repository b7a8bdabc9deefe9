/-!
# What generated programs share

Programs built for either target see the same tape, the same cells and the same
input and output, so both targets take the sizes and names from here.
-/

namespace TapeCompiler.Layout

/-- The number of cells on the tape. -/
def tapeSize : Nat := 30000

/-- The number of values a cell can hold; cell arithmetic is modulo this. -/
def cellValues : Nat := 256

/-- The value that adding `n` adds to a cell. -/
def wrap (n : Int) : Int :=
  n % cellValues

/-- The name of the tape. -/
def tape : String := "tape"

/-- The name of the data pointer, where it is a variable. -/
def pointer : String := "ptr"

/-- The name of the entry point. -/
def entry : String := "main"

/-- The library function that writes the low byte of its argument. -/
def putChar : String := "putchar"

/-- The library function that reads a byte, and -1 at the end of the input, whose
    low byte is 255. -/
def getChar : String := "getchar"

/-- What the labels of loop bodies start with. -/
def bodyHint : String := "loop_body"

/-- What the labels of loop conditions start with. -/
def conditionHint : String := "loop_condition"

end TapeCompiler.Layout
