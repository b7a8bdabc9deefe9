import TapeCompiler.Text.Bytes

/-!
# Styles

Titles, labels, remarks and complaints pass through a style on their way to the terminal.
What a style makes of a text is up to the terminal; here it is any function.
-/

namespace TapeCompiler

/-- What is made of text of each kind. -/
structure Styles where
  error : Bytes → Bytes := id
  success : Bytes → Bytes := id
  dim : Bytes → Bytes := id
  title : Bytes → Bytes := id
  /-- For the names of tools, which stand in a column. -/
  label : Bytes → Bytes := id

end TapeCompiler
