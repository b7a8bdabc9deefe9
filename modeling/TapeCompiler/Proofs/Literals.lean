import Mathlib.Data.List.Forall2
import TapeCompiler.Proofs.LineDecoder

/-!
# Literals of generated text

Counts are written as decimal literals, and not every number can stand everywhere. An
immediate operand has a field of eight bits or of 32 bits with a sign
(`Machine.Instruction.Encodable`). In C a literal has a type, in which the cell is changed
before it is converted back (`C.cellAfter?`), and there the change must not overflow.

The literals of a text are the amounts of its tree, as they are in C (`C.updates_text`) and
reduced where assembly changes cells (`Machine.updates_codeAfter`). So whether all of them
are in order depends on the amounts only, and `Program.literals_of_generate` says which
amounts are. Those of a text that is not optimised are all one. Otherwise there are amounts
that are too large:

  * moves in assembly from 2³¹ on, which no instruction can hold;
  * increments in C just below 2³¹ and just below 2⁶³, where the sum with a cell leaves the
    type of the literal.
-/

namespace TapeCompiler

/-! ## Amounts -/

/-- Whether the step moves the data pointer. -/
def Step.isMove : Step → Bool
  | .moveRight | .moveLeft => true
  | .increment | .decrement => false

/-- What a step makes of the value of a cell, without bounds. -/
def Step.total : Step → Nat → Int → Int
  | .increment, k, v => v + k
  | .decrement, k, v => v - k
  | .moveRight, _, v | .moveLeft, _, v => v

/-- The steps that a statement is lowered to, and how often each line does its step. -/
def Stmt.amounts (optimized : Bool) : Stmt → List (Step × Nat)
  | .repeated step _ count => if optimized then [(step, count)] else List.replicate count (step, 1)
  | .printChar _ | .readChar _ | .loop .. | .foreign .. | .absent => []

namespace Program

/-- The steps that a program is lowered to. -/
def amounts (p : Program) (optimized : Bool) : List (Step × Nat) :=
  (Stmt.nodesList p.body).flatMap (Stmt.amounts optimized)

theorem amounts_false {p : Program} {a : Step × Nat} (h : a ∈ p.amounts false) : a.2 = 1 := by
  obtain ⟨s, -, ha⟩ := List.mem_flatMap.1 h
  cases s with
  | repeated step pos count => rw [List.eq_of_mem_replicate ha]
  | _ => cases ha

/-- Amounts are not larger than the counts of the tree. -/
theorem amounts_lt {p : Program} {bound : Nat} (hbound : 1 < bound)
    (h : ∀ step pos count, .repeated step pos count ∈ Stmt.nodesList p.body → count < bound)
    {optimized : Bool} {a : Step × Nat} (ha : a ∈ p.amounts optimized) : a.2 < bound := by
  cases optimized with
  | false => rwa [amounts_false ha]
  | true =>
    obtain ⟨s, hs, ha⟩ := List.mem_flatMap.1 ha
    cases s with
    | repeated step pos count =>
      rw [List.mem_singleton.1 ha]
      exact h step pos count hs
    | _ => cases ha

end Program

namespace Scheme

variable {α : Type*}

/-- Write down the leaves of a tree only. -/
def leaves (f : Stmt → List α) : Scheme α where
  leaf := f
  enter _ := []
  exit _ := []

theorem block_leaves {f : Stmt → List α} (hloop : ∀ pos body close, f (.loop pos body close) = [])
    (n : Nat) (body : List Stmt) : (leaves f).block n body = (Stmt.nodesList body).flatMap f := by
  induction body using Stmt.listInduction generalizing n with
  | nil => rfl
  | leaf s rest hs ih =>
    rw [block_leaf hs, ih, Stmt.nodesList, Stmt.nodes_leaf hs, List.singleton_append,
      List.flatMap_cons, leaves]
  | loop pos body close rest ihbody ih =>
    rw [block_loop, ihbody, ih, Stmt.nodesList, Stmt.nodes, List.cons_append, List.flatMap_cons,
      List.flatMap_append, hloop, leaves]
    simp

end Scheme

/-! ## Immediate operands -/

namespace Machine

/-- The step that a line does, and its immediate operand. -/
def Line.update? : Line → Option (Step × Nat)
  | .instruction (.addq n) => some (.moveRight, n)
  | .instruction (.subq n) => some (.moveLeft, n)
  | .instruction (.addb n) => some (.increment, n)
  | .instruction (.subb n) => some (.decrement, n)
  | _ => none

/-- The steps of the code, and their immediate operands. -/
def updates (code : List Line) : List (Step × Nat) :=
  code.filterMap Line.update?

/-- There is a field for the immediate operand: 32 bits with a sign for a move, a byte for a
    change of the cell. -/
def Encodable (u : Step × Nat) : Prop :=
  if u.1.isMove then -0x80000000 ≤ (u.2 : Int) ∧ (u.2 : Int) < 0x80000000 else u.2 ≤ 255

/-- The immediate operand `u` stands for the amount `a`: a move says how far it goes, and a
    change of the cell is reduced to a byte. -/
def StandsFor (u a : Step × Nat) : Prop :=
  u.1 = a.1 ∧ if a.1.isMove then u.2 = a.2 else u.2 ≤ 255 ∧ u.2 % 256 = a.2 % 256

theorem standsFor_shown (a : Step × Nat) : StandsFor (a.1, Assembly.shown a.1 a.2) a := by
  obtain ⟨step, k⟩ := a
  refine ⟨rfl, ?_⟩
  cases step with
  | moveRight | moveLeft => rfl
  | increment | decrement =>
    exact ⟨Nat.le_of_lt_succ (Nat.mod_lt k (by decide)), Nat.mod_mod k 256⟩

theorem StandsFor.encodable_iff {u a : Step × Nat} (h : StandsFor u a) :
    Encodable u ↔ (a.1.isMove → a.2 < 0x80000000) := by
  obtain ⟨hstep, hnumber⟩ := h
  rw [Encodable, hstep]
  cases hmove : a.1.isMove with
  | true =>
    rw [hmove, if_pos rfl] at hnumber
    rw [if_pos rfl, hnumber]
    exact ⟨fun hfits _ => by omega, fun hlt => by have := hlt rfl; omega⟩
  | false =>
    rw [hmove, if_neg (by decide)] at hnumber
    rw [if_neg (by decide)]
    exact ⟨fun _ hmove => absurd hmove (by decide), fun _ => hnumber.1⟩

/-- The immediate operands of a program are its amounts, reduced where a cell is changed. -/
theorem updates_codeAfter {p : Program} (hknown : Stmt.Everywhere (·.isKnown) p.body)
    (o : LoweringOptions) (n : Nat) : updates (codeAfter n o p.body) =
      (p.amounts o.optimized).map fun a => (a.1, Assembly.shown a.1 a.2) := by
  have hblock : ((Scheme.lines o).block n p.body).flatMap (·.update?.toList) =
      ((Scheme.leaves (Stmt.amounts o.optimized)).block n p.body).flatMap
        fun a => [(a.1, Assembly.shown a.1 a.2)] := by
    refine Scheme.flatMap_block ?_ ?_ ?_ hknown n
    · intro s hs hk
      cases s with
      | repeated step pos count =>
        have hline : ∀ k, (Line.instruction (.counted k step)).update?.toList =
            [(step, Assembly.shown step k)] := by
          intro k
          cases step <;> rfl
        simp only [Scheme.lines, Scheme.leaves, Stmt.amounts, LoweringOptions.copies,
          LoweringOptions.each]
        split <;> simp [hline, List.flatMap_replicate]
      | printChar | readChar => rfl
      | loop => cases hs
      | foreign | absent => cases hk
    · exact fun _ => rfl
    · exact fun _ => rfl
  rw [updates, codeAfter, List.filterMap_append, List.filterMap_append,
    List.filterMap_eq_flatMap_toList Line.update? (Scheme.block ..), hblock,
    Scheme.block_leaves (fun _ _ _ => rfl), ← List.map_eq_flatMap]
  exact List.append_nil _

end Machine

/-! ## Literals of C -/

namespace C

/-- The step of each line that does one, and its literal. -/
def updates (text : String) : List (Step × Nat) :=
  (text.toList.splitOn '\n').filterMap counted?

/-- The types that a decimal literal can have. The third type of the language is as wide as
    `long` here. -/
inductive LiteralType
  | int
  | long
  deriving DecidableEq, Repr

namespace LiteralType

/-- The first value beyond the type. -/
def limit : LiteralType → Int
  | int => 0x80000000
  | long => 0x8000000000000000

/-- The value belongs to the type. -/
def Holds (t : LiteralType) (v : Int) : Prop :=
  -t.limit ≤ v ∧ v < t.limit

instance (t : LiteralType) (v : Int) : Decidable (t.Holds v) :=
  inferInstanceAs (Decidable (_ ∧ _))

/-- The type of a decimal literal is the first that it belongs to. -/
def ofLiteral? (k : Nat) : Option LiteralType :=
  [int, long].find? (·.Holds k)

theorem ofLiteral?_eq {k : Nat} (h : k < 0x8000000000000000) :
    ofLiteral? k = some (if k < 0x80000000 then int else long) := by
  rw [ofLiteral?]
  split
  · have hint : int.Holds k := by
      rw [Holds, limit]
      omega
    rw [List.find?_cons_of_pos (by rwa [decide_eq_true_iff])]
  · have hint : ¬ int.Holds k := by
      rw [Holds, limit]
      omega
    have hlong : long.Holds k := by
      rw [Holds, limit]
      omega
    rw [List.find?_cons_of_neg (by rwa [decide_eq_true_iff]),
      List.find?_cons_of_pos (by rwa [decide_eq_true_iff])]

end LiteralType

/-- What is in the cell after an update with the literal `k`. The cell is promoted to `int`,
    which holds all its values, and then converted to the type of the literal, where the
    update is computed. There is no result if that overflows. The result is converted back to
    `unsigned char`. -/
def cellAfter? (s : Step) (k : Nat) (cell : UInt8) : Option UInt8 := do
  let t ← LiteralType.ofLiteral? k
  let v := s.total k cell.toNat
  if t.Holds v then some (UInt8.ofInt v) else none

/-- The update is defined for every cell, and what it stores is the exact result modulo 256. -/
def Wraps (u : Step × Nat) : Prop :=
  ∀ cell : UInt8, ∃ v, cellAfter? u.1 u.2 cell = some v ∧
    (v.toNat : Int) = u.1.total u.2 cell.toNat % 256

theorem toNat_ofInt (v : Int) : ((UInt8.ofInt v).toNat : Int) = v % 256 := by
  rw [UInt8.ofInt, UInt8.toNat_ofNat']
  omega

theorem cellAfter?_of_type {k : Nat} {t : LiteralType} (h : LiteralType.ofLiteral? k = some t)
    (s : Step) (cell : UInt8) : cellAfter? s k cell =
      if t.Holds (s.total k cell.toNat) then some (UInt8.ofInt (s.total k cell.toNat)) else none := by
  rw [cellAfter?, h]
  rfl

/-- An update wraps if its exact result always belongs to the type of the literal. -/
theorem wraps_iff {u : Step × Nat} {t : LiteralType} (h : LiteralType.ofLiteral? u.2 = some t) :
    Wraps u ↔ ∀ cell : UInt8, t.Holds (u.1.total u.2 cell.toNat) := by
  refine forall_congr' fun cell => ?_
  rw [cellAfter?_of_type h]
  split
  · next hholds => exact iff_of_true ⟨_, rfl, toNat_ofInt _⟩ hholds
  · next hholds =>
    refine iff_of_false ?_ hholds
    rintro ⟨v, hv, -⟩
    cases hv

/-- The literals that wrap. Only a sum can leave the type of its literal, and it does so if
    the literal is close to the end of the type. -/
theorem wraps_iff_lt {u : Step × Nat} (h : u.2 < 0x8000000000000000) :
    Wraps u ↔ (u.1 = .increment →
      u.2 < 0x7FFFFF01 ∨ 0x80000000 ≤ u.2 ∧ u.2 < 0x7FFFFFFFFFFFFF01) := by
  obtain ⟨step, k⟩ := u
  rw [wraps_iff (LiteralType.ofLiteral?_eq h)]
  have hcell : ∀ cell : UInt8, cell.toNat ≤ 255 := fun cell => Nat.le_of_lt_succ cell.toNat_lt
  have hlimit : (if k < 0x80000000 then LiteralType.int else .long).limit =
      if k < 0x80000000 then 0x80000000 else 0x8000000000000000 := apply_ite ..
  simp only [LiteralType.Holds, hlimit]
  cases step with
  | increment =>
    simp only [Step.total, true_imp_iff]
    constructor
    · intro hholds
      -- The largest cell decides.
      have hmax : _ ∧ ((255 : Int) + k < if k < 0x80000000 then 0x80000000 else 0x8000000000000000) :=
        hholds 255
      omega
    · intro hk cell
      have := hcell cell
      omega
  | decrement | moveRight | moveLeft =>
    refine iff_of_true (fun cell => ?_) (fun hstep => by cases hstep)
    have := hcell cell
    simp only [Step.total]
    omega

/-! ## The updates of a text -/

/-- The updates on the lines of a chunk. -/
def chunkUpdates (c : Chunk) : List (Step × Nat) :=
  (c.map String.toList).filterMap counted?

theorem updates_textOf {chunks : List Chunk} (h : ∀ c ∈ chunks, Machine.IsLines c) :
    updates (Program.textOf chunks) = chunks.flatMap chunkUpdates := by
  have hempty : counted? [] = none := rfl
  rw [updates, Machine.splitOn_textOf h, List.filterMap_append, List.filterMap_cons_none hempty,
    List.filterMap_nil, List.append_nil, List.map_flatten, List.filterMap_flatten, List.map_map,
    List.flatMap_def]
  rfl

theorem chunkUpdates_step (k : Nat) (s : Step) : chunkUpdates (step s k) = [(s, k)] := by
  rw [chunkUpdates, map_toList_step, List.filterMap_cons_some (counted?_numbered k s)]
  rfl

theorem chunkUpdates_loopEnter (n : Nat) : chunkUpdates (target.loopEnter (.numbered n)) = [] := by
  rw [chunkUpdates, map_toList_loopEnter]
  rfl

theorem chunkUpdates_loopExit (n : Nat) : chunkUpdates (target.loopExit (.numbered n)) = [] := by
  rw [chunkUpdates, map_toList_loopExit]
  rfl

/-- The literals of a program are its amounts. -/
theorem updates_text {p : Program} (hknown : Stmt.Everywhere (·.isKnown) p.body)
    (optimized : Bool) (n : Nat) :
    updates (Program.textOf (p.chunksAfter n (options optimized))) = p.amounts optimized := by
  have hblock : ((Scheme.chunks (options optimized)).block n p.body).flatMap chunkUpdates =
      ((Scheme.leaves (Stmt.amounts optimized)).block n p.body).flatMap fun a => [a] := by
    refine Scheme.flatMap_block ?_ ?_ ?_ hknown n
    · intro s hs hk
      cases s with
      | repeated step pos count =>
        have hstep : ∀ k : Nat, chunkUpdates ((options optimized).target.step step k) = [(step, k)] :=
          fun k => chunkUpdates_step k step
        simp only [Scheme.chunks, Scheme.leaves, Stmt.amounts, LoweringOptions.copies,
          LoweringOptions.each, List.flatMap_singleton', List.flatMap_replicate, hstep]
        cases optimized <;> simp [options]
      | printChar | readChar => rfl
      | loop => cases hs
      | foreign | absent => cases hk
    · intro n
      rw [Scheme.enter_chunks, List.flatMap_singleton]
      exact chunkUpdates_loopEnter n
    · intro n
      rw [Scheme.exit_chunks, List.flatMap_singleton]
      exact chunkUpdates_loopExit n
  have hprologue : chunkUpdates (options optimized).target.prologue = [] := by
    change chunkUpdates target.prologue = []
    decide +kernel
  have hepilogue : chunkUpdates (options optimized).target.epilogue = [] := by
    change chunkUpdates target.epilogue = []
    decide +kernel
  rw [updates_textOf (decodes.isLines_chunks hknown n), Program.chunksAfter, List.flatMap_append,
    List.flatMap_cons, hblock, hprologue, List.flatMap_singleton, hepilogue, List.flatMap_singleton',
    Scheme.block_leaves (fun _ _ _ => rfl), List.append_nil, List.nil_append, Program.amounts]

end C

/-- The literals of generated text, for every tree whose counts are signed 64-bit words.
    An immediate operand that changes a cell is a byte and congruent to its amount, one that
    moves the pointer is its amount, and a literal of C is its amount. So the immediate
    operands have a field if moves stay below 2³¹, and changes in C are defined and wrap if
    increments leave room for a cell before 2³¹ and 2⁶³. Without optimisation all amounts are
    one. -/
theorem Program.literals_of_generate {p : Program} (hknown : Stmt.Everywhere (·.isKnown) p.body)
    (hcount : ∀ step pos count, .repeated step pos count ∈ Stmt.nodesList p.body →
      count ≤ 0x7FFFFFFFFFFFFFFF) (optimized : Bool) (issued : Nat) :
    ∃ assembly code text,
      p.generate (Machine.options optimized) (.counter issued) = .ok assembly ∧
      Machine.read assembly = some code ∧
      List.Forall₂ Machine.StandsFor (Machine.updates code) (p.amounts optimized) ∧
      ((∀ u ∈ Machine.updates code, Machine.Encodable u) ↔
        ∀ a ∈ p.amounts optimized, a.1.isMove → a.2 < 0x80000000) ∧
      p.generate (C.options optimized) (.counter issued) = .ok text ∧
      C.updates text = p.amounts optimized ∧
      ((∀ u ∈ C.updates text, C.Wraps u) ↔
        ∀ a ∈ p.amounts optimized, a.1 = .increment →
          a.2 < 0x7FFFFF01 ∨ 0x80000000 ≤ a.2 ∧ a.2 < 0x7FFFFFFFFFFFFF01) ∧
      (optimized = false → ∀ a ∈ p.amounts optimized, a.2 = 1) := by
  refine ⟨_, _, _, generate_counter hknown _ issued, Machine.read_text_after optimized hknown issued,
    ?_, ?_, generate_counter hknown _ issued, C.updates_text hknown optimized issued, ?_, ?_⟩
  · rw [Machine.updates_codeAfter hknown, List.forall₂_map_left_iff]
    exact List.forall₂_same.2 fun a _ => Machine.standsFor_shown a
  · rw [Machine.updates_codeAfter hknown, List.forall_mem_map]
    exact forall₂_congr fun a _ => (Machine.standsFor_shown a).encodable_iff
  · rw [C.updates_text hknown]
    refine forall₂_congr fun a ha => C.wraps_iff_lt ?_
    exact amounts_lt (by decide) (fun step pos count hs => Nat.lt_succ_of_le (hcount step pos count hs)) ha
  · rintro rfl a ha
    exact amounts_false ha

/-- The largest count that is a signed 64-bit word can be subtracted, and other counts wrap
    around as well. -/
theorem Program.literals_of_generate_largest :
    let p : Program := ⟨{}, [.repeated .increment {} 300, .loop {} [
      .repeated .decrement {} 0x7FFFFFFFFFFFFFFF, .repeated .moveLeft {} 0x7FFFFFFF] {}]⟩
    p.amounts true = [(.increment, 300), (.decrement, 0x7FFFFFFFFFFFFFFF), (.moveLeft, 0x7FFFFFFF)] ∧
    ∃ assembly code text,
      p.generate (Machine.options true) = .ok assembly ∧ Machine.read assembly = some code ∧
      (∀ u ∈ Machine.updates code, Machine.Encodable u) ∧
      p.generate (C.options true) = .ok text ∧ C.updates text = p.amounts true ∧
      ∀ u ∈ C.updates text, C.Wraps u := by
  intro p
  have hamounts : p.amounts true =
      [(.increment, 300), (.decrement, 0x7FFFFFFFFFFFFFFF), (.moveLeft, 0x7FFFFFFF)] := rfl
  have hcount : ∀ step pos count, .repeated step pos count ∈ Stmt.nodesList p.body →
      count ≤ 0x7FFFFFFFFFFFFFFF := by
    intro step pos count h
    simp [p, Stmt.nodesList, Stmt.nodes] at h
    omega
  obtain ⟨assembly, code, text, hassembly, hread, -, hencodable, htext, hupdates, hwraps, -⟩ :=
    p.literals_of_generate (by decide) hcount true 0
  refine ⟨hamounts, assembly, code, text, hassembly, hread, hencodable.2 ?_, htext, hupdates,
    hwraps.2 ?_⟩
  · rw [hamounts]
    simp [Step.isMove]
  · rw [hamounts]
    simp

/-- Two counts that are too large: assembly has no field for the move, and the increment is
    undefined in C as soon as the cell is not zero. -/
theorem Program.literals_out_of_range :
    let p : Program := ⟨{}, [.repeated .increment {} 0x7FFFFFFF, .repeated .moveRight {} 0x80000000]⟩
    ∃ assembly code text,
      p.generate (Machine.options true) = .ok assembly ∧ Machine.read assembly = some code ∧
      (.moveRight, 0x80000000) ∈ Machine.updates code ∧ ¬ Machine.Encodable (.moveRight, 0x80000000) ∧
      p.generate (C.options true) = .ok text ∧ (.increment, 0x7FFFFFFF) ∈ C.updates text ∧
      ∀ cell, cell ≠ 0 → C.cellAfter? .increment 0x7FFFFFFF cell = none := by
  intro p
  have hknown : Stmt.Everywhere (·.isKnown) p.body := by decide
  refine ⟨_, _, _, generate_counter hknown _ 0, Machine.read_text_after true hknown 0, ?_, ?_,
    generate_counter hknown _ 0, ?_, fun cell hcell => ?_⟩
  · rw [Machine.updates_codeAfter hknown]
    exact List.mem_map_of_mem (a := (Step.moveRight, 0x80000000)) (by decide)
  · simp [Machine.Encodable, Step.isMove]
  · rw [C.updates_text hknown]
    decide
  · have hpos : cell.toNat ≠ 0 := fun h => hcell (UInt8.toNat_inj.1 h)
    have htype : C.LiteralType.ofLiteral? 0x7FFFFFFF = some .int := by decide
    rw [C.cellAfter?_of_type htype, if_neg]
    rw [C.LiteralType.Holds, C.LiteralType.limit, Step.total]
    omega

end TapeCompiler
