import TapeCompiler.Program.Basic
import TapeCompiler.Document.Json
import TapeCompiler.Document.Yaml

/-!
# Programs as documents

The document of a node has the fields `body`, `count`, `end`, `pos` and `type`, in
that order, as far as the node has them. A gap in a tree is null.
-/

namespace TapeCompiler

mutual

/-- The document of a statement. -/
def Stmt.document : Stmt → Document
  | .repeated step pos count =>
    .fields [("count", .int count), ("pos", .text pos.text), ("type", .text step.name)]
  | .loop pos body close =>
    .fields [("body", .list (Stmt.documentsOnto [] body).reverse), ("end", .text close.text),
      ("pos", .text pos.text), ("type", .text "Loop")]
  | .printChar pos => .fields [("pos", .text pos.text), ("type", .text "PrintChar")]
  | .readChar pos => .fields [("pos", .text pos.text), ("type", .text "ReadChar")]
  | .foreign kind pos => .fields [("pos", .text pos.text), ("type", .text kind.text)]
  | .absent => .null

/-- The documents of a statement list, last first, in front of `acc`. -/
def Stmt.documentsOnto (acc : List Document) : List Stmt → List Document
  | [] => acc
  | s :: rest => Stmt.documentsOnto (s.document :: acc) rest

end

/-- The document of a program. -/
def Program.document (p : Program) : Document :=
  .fields [("body", .list (Stmt.documentsOnto [] p.body).reverse), ("pos", .text p.pos.text),
    ("type", .text "Root")]

/-- The document of a node. -/
def Node.document : Node → Document
  | .root p => p.document
  | .stmt s => s.document

end TapeCompiler
