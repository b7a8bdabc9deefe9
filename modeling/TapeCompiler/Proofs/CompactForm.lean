import TapeCompiler.Program.Compact
import TapeCompiler.Proofs.JsonDocument
import TapeCompiler.Proofs.Tree

/-!
# The compact form determines the tree

The compact form of a tree leaves out positions and nothing else: from the text the tree
can be read back up to positions (`Compact.read`), so two trees have the same compact form
exactly when they are the same without their positions (`Node.compact_unique`).

The reader goes through the text once, character by character, and keeps what it has read
on a stack. Names and numbers are words, which end where one of the characters `([, ])`
follows. A closing parenthesis puts a node together, of a name and a number or of a name and
a list. The statements of a list are put into it one by one, at the comma behind each and at
the closing bracket, so that the list at which the reader stands is always near the top.
-/

namespace TapeCompiler

namespace Compact

/-! ## Reading -/

/-- What the reader has on its stack. -/
inductive Piece
  /-- A name or a number. -/
  | word (cs : List Char)
  /-- An opening parenthesis. -/
  | paren
  /-- An open list with the statements in it so far. -/
  | items (body : List Stmt)
  /-- A comma behind a statement. -/
  | comma
  /-- The closing bracket of the list below. -/
  | closed
  /-- A node with parentheses. -/
  | node (n : Node)

/-- The characters that stand between names and numbers. -/
def marks : List Char := ['(', '[', ',', ' ', ']', ')']

/-- Whether a character may stand in a name or a number. -/
def isWord (c : Char) : Bool :=
  !marks.contains c

/-- The statement whose name is all there is of it. -/
def leaf? (name : String) : Option Stmt :=
  if name = "PrintChar" then some (.printChar {})
  else if name = "ReadChar" then some (.readChar {})
  else if name = "<nil>" then some .absent
  else if h : '.' ∈ name.toList ∧ name.toList.all isWord then
    some (.foreign ⟨name, h.1, h.2⟩ {})
  else none

/-- The statement with a name and a count. -/
def counted? (name count : String) : Option Stmt :=
  ([.moveRight, .moveLeft, .increment, .decrement].find? fun step => step.name = name).bind
    fun step : Step => (Lexeme.number? count).map fun n => .repeated step {} n

/-- The node with a name and a list. -/
def listed? (name : String) (body : List Stmt) : Option Node :=
  if name = "Loop" then some (.stmt (.loop {} body {}))
  else if name = "Root" then some (.root ⟨{}, body⟩)
  else none

namespace Piece

/-- The node that a piece is by itself. -/
def node? : Piece → Option Node
  | word cs => (leaf? (String.ofList cs)).map .stmt
  | node n => some n
  | _ => none

/-- The statement that a piece is by itself. -/
def stmt? (p : Piece) : Option Stmt :=
  p.node?.bind fun
    | .stmt s => some s
    | .root _ => none

theorem node?_of_stmt? {p : Piece} {s : Stmt} (h : p.stmt? = some s) :
    p.node? = some (.stmt s) := by
  obtain ⟨n, hn, hs⟩ := Option.bind_eq_some_iff.1 h
  cases n with
  | root => cases hs
  | stmt => rw [hn, Option.some.inj hs]

end Piece

open Piece

/-- Put the statement on top into the list below it. -/
def add : List Piece → Option (List Piece)
  | p :: items body :: stack => p.stmt?.map fun s => items (body ++ [s]) :: stack
  | _ => none

/-- Close the list on top, which is empty, or put its last statement into it. -/
def finish : List Piece → Option (List Piece)
  | items [] :: stack => some (closed :: items [] :: stack)
  | stack => (add stack).map (closed :: ·)

/-- Put a node together. -/
def close : List Piece → Option (List Piece)
  | closed :: items body :: paren :: word name :: stack =>
    (listed? (String.ofList name) body).map (node · :: stack)
  | word count :: paren :: word name :: stack =>
    (counted? (String.ofList name) (String.ofList count)).map fun s =>
      node (.stmt s) :: stack
  | _ => none

/-- Go on with the word on top, or start one. -/
def extend (c : Char) : List Piece → List Piece
  | word cs :: stack => word (cs ++ [c]) :: stack
  | stack => word [c] :: stack

/-- Read a character. -/
def step (stack : List Piece) : Char → Option (List Piece)
  | '(' => some (paren :: stack)
  | '[' => some (items [] :: stack)
  | ',' => (add stack).map (comma :: ·)
  | ' ' => match stack with
    | comma :: stack => some stack
    | _ => none
  | ']' => finish stack
  | ')' => close stack
  | c => some (extend c stack)

/-- Read a text. -/
def run (stack : List Piece) (text : List Char) : Option (List Piece) :=
  text.foldlM step stack

theorem run_cons (stack : List Piece) (c : Char) (text : List Char) :
    run stack (c :: text) = (step stack c).bind (run · text) :=
  List.foldlM_cons

theorem run_singleton (stack : List Piece) (c : Char) : run stack [c] = step stack c :=
  (run_cons stack c []).trans (Option.bind_fun_some _)

theorem run_append (stack : List Piece) (xs ys : List Char) :
    run stack (xs ++ ys) = (run stack xs).bind (run · ys) :=
  List.foldlM_append

/-- The tree of which a text is the compact form, without positions. -/
def read (text : List Char) : Option Node :=
  match run [] text with
  | some [p] => p.node?
  | _ => none

/-! ## Words -/

theorem step_word {c : Char} (hc : isWord c) (stack : List Piece) :
    step stack c = some (extend c stack) := by
  unfold step
  split
  case h_7 => rfl
  all_goals cases hc

/-- No word is on top, so the next one starts anew. -/
def Ready : List Piece → Prop
  | word _ :: _ => False
  | _ => True

theorem run_word_append {cs : List Char} (hcs : ∀ c ∈ cs, isWord c) (seen : List Char)
    (stack : List Piece) : run (word seen :: stack) cs = some (word (seen ++ cs) :: stack) := by
  induction cs generalizing seen with
  | nil =>
    rw [List.append_nil]
    rfl
  | cons c cs ih =>
    obtain ⟨hc, hcs⟩ := List.forall_mem_cons.1 hcs
    rw [run_cons, step_word hc, Option.bind_some, extend, ih hcs, List.append_assoc,
      List.singleton_append]

/-- A word goes onto the stack. -/
theorem run_word {cs : List Char} (hne : cs ≠ []) (hcs : cs.all isWord) {stack : List Piece}
    (hready : Ready stack) : run stack cs = some (word cs :: stack) := by
  obtain ⟨c, cs, rfl⟩ := List.exists_cons_of_ne_nil hne
  obtain ⟨hc, hcs⟩ := List.forall_mem_cons.1 (List.all_eq_true.1 hcs)
  have hextend : extend c stack = word [c] :: stack := by
    unfold extend
    split
    · cases hready
    · rfl
  rw [run_cons, step_word hc, Option.bind_some, hextend, run_word_append hcs,
    List.singleton_append]

theorem isWord_of_isDigit {c : Char} (h : c.isDigit) : isWord c := by
  have hmarks : marks.all (!·.isDigit) := rfl
  rw [isWord, Bool.not_eq_true', ← Bool.not_eq_true, List.contains_iff_mem]
  intro hc
  have hdigit := List.all_eq_true.1 hmarks c hc
  rw [h] at hdigit
  cases hdigit

theorem run_number (n : Nat) {stack : List Piece} (hready : Ready stack) :
    run stack (toString n).toList = some (word (toString n).toList :: stack) :=
  run_word (Lexeme.toList_toString_ne_nil n) (List.all_eq_true.2 fun _ hc =>
    isWord_of_isDigit (Lexeme.isDigit_of_mem_toString hc)) hready

theorem run_name (step : Step) {stack : List Piece} (hready : Ready stack) :
    run stack step.name.toList = some (word step.name.toList :: stack) := by
  refine run_word ?_ ?_ hready
  · cases step <;> decide
  · cases step <;> decide

theorem counted?_name (step : Step) (n : Nat) :
    counted? step.name (toString n) = some (.repeated step {} n) := by
  rw [counted?, Lexeme.number?_toString]
  cases step <;> rfl

/-- The name of a foreign statement is no other statement's. -/
theorem leaf?_text (kind : ForeignName) : leaf? kind.text = some (.foreign kind {}) := by
  rw [leaf?, if_neg (kind.text_ne (by decide)), if_neg (kind.text_ne (by decide)),
    if_neg (kind.text_ne (by decide)), dif_pos ⟨kind.qualified, kind.plain⟩]

/-! ## Reading what was written -/

open Document (written written_cons)

/-- Reading goes on with the piece that was written last. -/
theorem run_written_cons {acc : List String} {stack : List Piece}
    (h : run [] (written acc) = some stack) (piece : String) :
    run [] (written (piece :: acc)) = run stack piece.toList := by
  rw [written_cons, run_append, h, Option.bind_some]

/-- A closing bracket may follow, and then the list on top of `below` has this body. -/
def Closes (stack : List Piece) (body : List Stmt) (below : List Piece) : Prop :=
  step stack ']' = some (closed :: items body :: below)

theorem closes_nil (below : List Piece) : Closes (items [] :: below) [] below := rfl

theorem closes_add {p : Piece} {s : Stmt} (hp : p.stmt? = some s) (body : List Stmt)
    (below : List Piece) : Closes (p :: items body :: below) (body ++ [s]) below := by
  have hfinish : step (p :: items body :: below) ']' =
      (add (p :: items body :: below)).map (closed :: ·) := by
    -- An open list is no statement, so the empty list is not meant.
    cases p with
    | items => cases hp
    | _ => rfl
  rw [Closes, hfinish, add, hp]
  rfl

section

variable {acc : List String} {stack below : List Piece} {name : String}

/-- A word that is a statement by itself goes onto the stack. -/
theorem run_leaf (hacc : run [] (written acc) = some stack) (hready : Ready stack) {s : Stmt}
    (hs : leaf? name = some s) (hne : name.toList ≠ []) (hname : name.toList.all isWord) :
    ∃ p, run [] (written (name :: acc)) = some (p :: stack) ∧ p.stmt? = some s := by
  refine ⟨word name.toList, ?_, ?_⟩
  · rw [run_written_cons hacc, run_word hne hname hready]
  · rw [stmt?, node?, String.ofList_toList, hs]
    rfl

/-- A run becomes a node. -/
theorem run_counted (hacc : run [] (written acc) = some stack) (hready : Ready stack) (step : Step)
    (count : Nat) : run [] (written (")" :: toString count :: "(" :: step.name :: acc)) =
      some (node (.stmt (.repeated step {} count)) :: stack) := by
  have hname : run [] (written (step.name :: acc)) = some (word step.name.toList :: stack) := by
    rw [run_written_cons hacc, run_name step hready]
  have hparen : run [] (written ("(" :: step.name :: acc)) =
      some (paren :: word step.name.toList :: stack) := run_written_cons hname "("
  have hcount : run [] (written (toString count :: "(" :: step.name :: acc)) =
      some (word (toString count).toList :: paren :: word step.name.toList :: stack) := by
    have hready : Ready (paren :: word step.name.toList :: stack) := trivial
    rw [run_written_cons hparen, run_number count hready]
  have hclose : Compact.step
      (word (toString count).toList :: paren :: word step.name.toList :: stack) ')' =
      (counted? (String.ofList step.name.toList) (String.ofList (toString count).toList)).map
        fun s => node (.stmt s) :: stack := rfl
  have htext : ")".toList = [')'] := rfl
  rw [run_written_cons hcount, htext, run_singleton, hclose, String.ofList_toList,
    String.ofList_toList, counted?_name, Option.map_some]

/-- A name and an opening bracket start a list. -/
theorem run_opened (name piece : String) (hacc : run [] (written acc) = some stack)
    (hready : Ready stack) (htext : piece.toList = name.toList ++ ['(', '['])
    (hne : name.toList ≠ []) (hname : name.toList.all isWord) :
    run [] (written (piece :: acc)) = some (items [] :: paren :: word name.toList :: stack) := by
  rw [run_written_cons hacc, htext, run_append, run_word hne hname hready]
  rfl

/-- A list in parentheses becomes a node. -/
theorem run_closed {body : List Stmt} {n : Node} (hacc : run [] (written acc) = some stack)
    (hstack : Closes stack body (paren :: word name.toList :: below))
    (hn : listed? name body = some n) :
    run [] (written ("])" :: acc)) = some (node n :: below) := by
  have hclose : step (closed :: items body :: paren :: word name.toList :: below) ')' =
      (listed? (String.ofList name.toList) body).map (node · :: below) := rfl
  have htext : "])".toList = [']', ')'] := rfl
  rw [run_written_cons hacc, htext, run_cons, hstack, Option.bind_some, run_singleton, hclose,
    String.ofList_toList, hn, Option.map_some]

/-- A comma puts a statement into its list. -/
theorem run_comma {p : Piece} {s : Stmt} {body : List Stmt}
    (hacc : run [] (written acc) = some (p :: items body :: below)) (hp : p.stmt? = some s) :
    run [] (written (", " :: acc)) = some (items (body ++ [s]) :: below) := by
  have htext : ", ".toList = [',', ' '] := rfl
  have hcomma : step (p :: items body :: below) ',' =
      (add (p :: items body :: below)).map (comma :: ·) := rfl
  rw [run_written_cons hacc, htext, run_cons, hcomma, add, hp]
  rfl

end

mutual

/-- A statement goes onto the stack, without its positions. -/
theorem run_compactOnto {acc : List String} {stack : List Piece}
    (hacc : run [] (written acc) = some stack) (hready : Ready stack) :
    (s : Stmt) → ∃ p, run [] (written (s.compactOnto acc)) = some (p :: stack) ∧
      p.stmt? = some s.bare
  | .repeated step _ count => ⟨_, run_counted hacc hready step count, rfl⟩
  | .loop _ body _ => by
    have hopened := run_opened "Loop" "Loop([" hacc hready rfl (by decide) (by decide)
    obtain ⟨stack', hbody, hcloses⟩ := run_compactsOnto hopened body
    exact ⟨_, run_closed hbody hcloses rfl, rfl⟩
  | .printChar _ => run_leaf hacc hready rfl (by decide) (by decide)
  | .readChar _ => run_leaf hacc hready rfl (by decide) (by decide)
  | .foreign kind _ => by
    have hne : kind.text.toList ≠ [] := List.ne_nil_of_mem kind.qualified
    exact run_leaf hacc hready (leaf?_text kind) hne kind.plain
  | .absent => run_leaf hacc hready rfl (by decide) (by decide)

/-- The statements of a list go into it. -/
theorem run_compactsOnto {acc : List String} {below : List Piece}
    (hacc : run [] (written acc) = some (items [] :: below)) :
    (body : List Stmt) → ∃ stack, run [] (written (Stmt.compactsOnto acc body)) = some stack ∧
      Closes stack (Stmt.bareList body) below
  | [] => ⟨_, hacc, closes_nil below⟩
  | s :: rest => by
    obtain ⟨p, hs, hp⟩ := run_compactOnto hacc trivial s
    exact run_compactTailOnto hs hp rest

/-- The further statements of a list go into it behind those that are there. -/
theorem run_compactTailOnto {acc : List String} {p : Piece} {s : Stmt} {body : List Stmt}
    {below : List Piece} (hacc : run [] (written acc) = some (p :: items body :: below))
    (hp : p.stmt? = some s) :
    (rest : List Stmt) → ∃ stack, run [] (written (Stmt.compactTailOnto acc rest)) = some stack ∧
      Closes stack (body ++ s :: Stmt.bareList rest) below
  | [] => ⟨_, hacc, closes_add hp body below⟩
  | t :: rest => by
    -- The comma puts `s` into the list, and `t` takes its place on the stack.
    obtain ⟨q, ht, hq⟩ := run_compactOnto (run_comma hacc hp) trivial t
    obtain ⟨stack, hstack, hcloses⟩ := run_compactTailOnto ht hq rest
    refine ⟨stack, hstack, ?_⟩
    rwa [List.append_assoc] at hcloses

end

end Compact

/-! ## What the compact form tells -/

mutual

theorem Stmt.compactOnto_bare (acc : List String) :
    (s : Stmt) → s.bare.compactOnto acc = s.compactOnto acc
  | .loop _ body _ => congrArg ("])" :: ·) (compactsOnto_bareList _ body)
  | .repeated .. | .printChar _ | .readChar _ | .foreign .. | .absent => rfl

theorem Stmt.compactsOnto_bareList (acc : List String) :
    (body : List Stmt) → compactsOnto acc (bareList body) = compactsOnto acc body
  | [] => rfl
  | s :: rest => by
    rw [bareList, compactsOnto, compactsOnto, compactOnto_bare acc s, compactTailOnto_bareList _ rest]

theorem Stmt.compactTailOnto_bareList (acc : List String) :
    (rest : List Stmt) → compactTailOnto acc (bareList rest) = compactTailOnto acc rest
  | [] => rfl
  | s :: rest => by
    rw [bareList, compactTailOnto, compactTailOnto, compactOnto_bare _ s,
      compactTailOnto_bareList _ rest]

end

namespace Node

/-- The node without its positions. -/
def bare : Node → Node
  | root p => root ⟨{}, Stmt.bareList p.body⟩
  | stmt s => stmt s.bare

theorem compact_bare (n : Node) : n.bare.compact = n.compact := by
  cases n with
  | root p => rw [bare, compact, compact, Stmt.compactsOnto_bareList]
  | stmt s => rw [bare, compact, compact, Stmt.compactOnto_bare]

/-- The reader finds the tree of a compact form. -/
theorem read_compact (n : Node) : Compact.read n.compact.toList = some n.bare := by
  have hacc : Compact.run [] (Document.written []) = some [] := rfl
  cases n with
  | root p =>
    have htext : (root p).compact.toList =
        Document.written ("])" :: Stmt.compactsOnto ["Root(["] p.body) := String.toList_join
    have hopened := Compact.run_opened "Root" "Root([" hacc trivial rfl (by decide) (by decide)
    obtain ⟨stack, hbody, hcloses⟩ := Compact.run_compactsOnto hopened p.body
    rw [Compact.read, htext, Compact.run_closed hbody hcloses rfl]
    rfl
  | stmt s =>
    have htext : (stmt s).compact.toList = Document.written (s.compactOnto []) := String.toList_join
    obtain ⟨piece, hs, hpiece⟩ := Compact.run_compactOnto hacc trivial s
    rw [Compact.read, htext, hs]
    exact Compact.Piece.node?_of_stmt? hpiece

example : Compact.read "Root([Loop([]), Increment(12), <nil>])".toList =
    some (.root ⟨{}, [.loop {} [] {}, .repeated .increment {} 12, .absent]⟩) := rfl

/-- From the compact form of a tree the tree can be read back without its positions, and two
    trees have the same compact form exactly when they are the same without their positions. -/
theorem compact_unique (n : Node) :
    Compact.read n.compact.toList = some n.bare ∧
      ∀ n' : Node, n.compact = n'.compact ↔ n.bare = n'.bare := by
  refine ⟨read_compact n, fun n' => ⟨fun h => ?_, fun h => ?_⟩⟩
  · have hread := read_compact n
    rw [h, read_compact n'] at hread
    exact (Option.some.inj hread).symm
  · rw [← compact_bare n, h, compact_bare]

end Node

end TapeCompiler
