import TapeCompiler.Program.Basic

/-!
# Outlines

The outline of a tree has one line per node, indented by two blanks per level of
nesting: the name, the position and, where there is one, the count or the closing
position. Gaps are left out.
-/

namespace TapeCompiler

namespace Outline

/-- A line of the outline: the nesting level and what stands there. -/
structure Line where
  depth : Nat
  content : String
  deriving DecidableEq, Repr

/-- The text of a line. -/
def Line.text (l : Line) : String :=
  String.ofList (List.replicate (2 * l.depth) ' ') ++ l.content ++ "\n"

end Outline

mutual

/-- The outline of a statement, last line first, in front of `acc`. -/
def Stmt.outlineOnto (depth : Nat) (acc : List Outline.Line) : Stmt → List Outline.Line
  | .repeated step pos count => ⟨depth, s!"{step.name} {pos.text} count={count}"⟩ :: acc
  | .loop pos body close =>
    Stmt.outlinesOnto (depth + 1) (⟨depth, s!"Loop {pos.text}..{close.text}"⟩ :: acc) body
  | .printChar pos => ⟨depth, s!"PrintChar {pos.text}"⟩ :: acc
  | .readChar pos => ⟨depth, s!"ReadChar {pos.text}"⟩ :: acc
  | .foreign kind pos => ⟨depth, s!"{kind.text} {pos.text}"⟩ :: acc
  | .absent => acc

/-- The outline of a statement list, last line first, in front of `acc`. -/
def Stmt.outlinesOnto (depth : Nat) (acc : List Outline.Line) : List Stmt → List Outline.Line
  | [] => acc
  | s :: rest => Stmt.outlinesOnto depth (s.outlineOnto depth acc) rest

end

/-- The lines of a node's outline. -/
def Node.outlineLines : Node → List Outline.Line
  | .root p => (Stmt.outlinesOnto 1 [⟨0, s!"Root {p.pos.text}"⟩] p.body).reverse
  | .stmt s => (s.outlineOnto 0 []).reverse

/-- The outline of a node. -/
def Node.outline (n : Node) : String :=
  String.join (n.outlineLines.map Outline.Line.text)

end TapeCompiler
