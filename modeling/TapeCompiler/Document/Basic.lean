/-!
# Documents

A document is what a data format can write down: nothing, a whole number, a text,
a list, or named fields in a fixed order. The tree of a program is shown as a
document, in JSON (`Document.json`) or in YAML (`Document.yaml`).
-/

namespace TapeCompiler

/-- A value that a data format can write down. -/
inductive Document
  | null
  | int (n : Int)
  | text (s : String)
  | list (items : List Document)
  | fields (entries : List (String × Document))
  deriving Inhabited, Repr

end TapeCompiler
