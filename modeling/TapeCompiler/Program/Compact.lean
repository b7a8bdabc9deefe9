import TapeCompiler.Program.Basic

/-!
# The compact form

A whole tree on one line, without positions: `Root([Increment(3), Loop([PrintChar])])`.
-/

namespace TapeCompiler

mutual

/-- The pieces of a statement's compact form, last first, in front of `acc`. -/
def Stmt.compactOnto (acc : List String) : Stmt → List String
  | .repeated step _ count => ")" :: toString count :: "(" :: step.name :: acc
  | .loop _ body _ => "])" :: Stmt.compactsOnto ("Loop([" :: acc) body
  | .printChar _ => "PrintChar" :: acc
  | .readChar _ => "ReadChar" :: acc
  | .foreign kind _ => kind.text :: acc
  | .absent => "<nil>" :: acc

/-- The pieces of a statement list, commas between the statements. -/
def Stmt.compactsOnto (acc : List String) : List Stmt → List String
  | [] => acc
  | s :: rest => Stmt.compactTailOnto (s.compactOnto acc) rest

/-- The pieces of the further statements of a list. -/
def Stmt.compactTailOnto (acc : List String) : List Stmt → List String
  | [] => acc
  | s :: rest => Stmt.compactTailOnto (s.compactOnto (", " :: acc)) rest

end

/-- The compact form of a node. -/
def Node.compact : Node → String
  | .root p => String.join ("])" :: Stmt.compactsOnto ["Root(["] p.body).reverse
  | .stmt s => String.join (s.compactOnto []).reverse

end TapeCompiler
