import TapeCompiler.Program.Basic

/-!
# Walking a tree

A walk visits the nodes of a tree in preorder. At each node it asks a visitor whether
to go into the node; gaps are not visited. A visitor may remember what it has seen: it
has a state, which each visit changes and on which its answers may depend.
-/

namespace TapeCompiler

universe u

/-- A visitor with states in `σ`: its state after visiting a node, and whether the walk
    goes into the node. -/
abbrev Visitor (σ : Type u) := σ → Node → σ × Bool

variable {σ : Type u}

mutual

/-- The visitor's state after a walk through a statement. -/
def Stmt.walkFrom (visitor : Visitor σ) (state : σ) : Stmt → σ
  | .absent => state
  | .loop pos body close =>
    let visit := visitor state (.stmt (.loop pos body close))
    if visit.2 then Stmt.walkListFrom visitor visit.1 body else visit.1
  | s => (visitor state (.stmt s)).1

/-- The visitor's state after a walk through a statement list. -/
def Stmt.walkListFrom (visitor : Visitor σ) (state : σ) : List Stmt → σ
  | [] => state
  | s :: rest => Stmt.walkListFrom visitor (s.walkFrom visitor state) rest

end

/-- The visitor's state after a walk through a node. -/
def Node.walkFrom (visitor : Visitor σ) (state : σ) : Node → σ
  | .root p =>
    let visit := visitor state (.root p)
    if visit.2 then Stmt.walkListFrom visitor visit.1 p.body else visit.1
  | .stmt s => s.walkFrom visitor state

/-- The nodes that a walk visits, in order, if it goes into the nodes that pass a test. -/
def Node.walk (enters : Node → Bool) (n : Node) : List Node :=
  (n.walkFrom (fun visited m => (m :: visited, enters m)) []).reverse

end TapeCompiler
