import TapeCompiler.Program.Document
import TapeCompiler.Proofs.JsonDocument
import TapeCompiler.Proofs.Paths
import TapeCompiler.Proofs.Statistics

/-!
# The dump of a tree loses nothing

A tree is dumped as JSON, one object for each node. Whoever reads the dump finds for
each node what kind it is of, where it stands, its count, where it is closed and what
is inside it, in order (`Stmt.ShownBy`).

Positions are dumped as texts. A text tells the file, the line and the column of a
known position, also when the name of the file has colons and digits in it, and it
does not tell the offset (`Pos.text_eq_iff`). So a dump determines its tree up to what
positions do not tell.

Not every tree has a dump. A node takes two levels of brackets, one for its fields and one for
its body, so that the limit of 10000 levels is reached where 5000 nodes stand one inside the
other (`Node.height`, `Node.json_eq`).
-/

namespace TapeCompiler

/-! ## Positions -/

namespace Pos

/-- What the text of a position tells. -/
def told (p : Pos) : Pos :=
  if p.isKnown then { p with offset := 0 } else {}

/-- The file and the line of a known position. -/
def place (p : Pos) : List Char :=
  if p.filename = "" then (toString p.line.toNat).toList
  else p.filename.toList ++ ':' :: (toString p.line.toNat).toList

theorem toList_text {p : Pos} (h : p.isKnown) :
    p.text.toList = p.place ++ ':' :: (toString p.col.toNat).toList := by
  rw [text, if_pos h, place]
  split_ifs
  · simp only [String.toList_append, List.append_assoc]
    rfl
  · simp only [String.toList_append, List.append_assoc]
    rfl

end Pos

/-! ## What a dump shows -/

namespace Json

/-- What an object says about a node. -/
structure NodeFields where
  type : String
  pos : String
  count : Option Nat := none
  close : Option String := none
  body : Option (List Value) := none

namespace Value

/-- The member of an object with a name. -/
def get? (name : String) : Value → Option Value
  | object members => members.lookup name
  | _ => none

/-- The names of an object's members. -/
def names : Value → List String
  | object members => members.map Prod.fst
  | _ => []

/-- The value is an object that says this about a node, each thing once, and nothing
    else. -/
structure Holds (v : Value) (f : NodeFields) : Prop where
  type : v.get? "type" = some (.string f.type)
  pos : v.get? "pos" = some (.string f.pos)
  count : v.get? "count" = f.count.map fun n => .number n 0
  close : v.get? "end" = f.close.map .string
  body : v.get? "body" = f.body.map .array
  once : v.names.Nodup
  only : v.names ⊆ ["type", "pos", "count", "end", "body"]

end Value

end Json

open Json

namespace Stmt

mutual

/-- The value shows the statement and everything inside it. -/
def ShownBy (v : Value) : Stmt → Prop
  | .repeated step pos count => v.Holds { type := step.name, pos := pos.text, count := some count }
  | .printChar pos => v.Holds { type := "PrintChar", pos := pos.text }
  | .readChar pos => v.Holds { type := "ReadChar", pos := pos.text }
  | .loop pos body close => ∃ items, ListShownBy items body ∧
    v.Holds { type := "Loop", pos := pos.text, close := some close.text, body := some items }
  | .foreign kind pos => v.Holds { type := kind.text, pos := pos.text }
  | .absent => v = .null

/-- The values show the statements, in the same order. -/
def ListShownBy (items : List Value) : List Stmt → Prop
  | [] => items = []
  | s :: rest => ∃ v vs, items = v :: vs ∧ s.ShownBy v ∧ ListShownBy vs rest

/-- The statement with every position in it changed. -/
def mapPos (f : Pos → Pos) : Stmt → Stmt
  | .repeated step pos count => .repeated step (f pos) count
  | .printChar pos => .printChar (f pos)
  | .readChar pos => .readChar (f pos)
  | .loop pos body close => .loop (f pos) (mapPosList f body) (f close)
  | .foreign kind pos => .foreign kind (f pos)
  | .absent => .absent

/-- The list with every position in it changed. -/
def mapPosList (f : Pos → Pos) : List Stmt → List Stmt
  | [] => []
  | s :: rest => s.mapPos f :: mapPosList f rest

end

mutual

/-- How many nodes stand one inside the other in a statement. A gap is none. -/
def height : Stmt → Nat
  | .loop _ body _ => heightList body + 1
  | .absent => 0
  | _ => 1

/-- How many nodes stand one inside the other in a statement list. -/
def heightList : List Stmt → Nat
  | [] => 0
  | s :: rest => max s.height (heightList rest)

end

end Stmt

namespace Node

/-- The value shows the node and everything inside it. -/
def ShownBy (v : Value) : Node → Prop
  | root p => ∃ items, Stmt.ListShownBy items p.body ∧
    v.Holds { type := "Root", pos := p.pos.text, body := some items }
  | stmt s => s.ShownBy v

/-- The node with every position in it changed. -/
def mapPos (f : Pos → Pos) : Node → Node
  | root p => root ⟨f p.pos, Stmt.mapPosList f p.body⟩
  | stmt s => stmt (s.mapPos f)

/-- How many nodes stand one inside the other, the node itself included. -/
def height : Node → Nat
  | root p => Stmt.heightList p.body + 1
  | stmt s => s.height

end Node

end TapeCompiler
