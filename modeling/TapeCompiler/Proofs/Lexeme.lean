import Mathlib.Data.List.SplitBy

/-!
# Lexemes

Generated text is read back in pieces. Each character is of some kind: the characters
of words, and those of operators, stick together with their like, others stand alone,
and blanks only separate (`Lexeme.read`). Which characters are of which kind is for
each target to say.

  * `Lexeme.read_append`: text can be read in two parts where its characters do not
    stick together.
  * `Lexeme.number?_toString`: a number is read back from its decimal digits.
-/

namespace TapeCompiler.Lexeme

/-- The kinds of characters. -/
inductive Kind
  /-- Separates lexemes. -/
  | blank
  /-- Part of a name or a number. -/
  | word
  /-- Part of an operator. -/
  | operator
  /-- A lexeme on its own. -/
  | alone
  deriving DecidableEq, Repr

variable (kind : Char → Kind)

/-- Whether two neighbours belong to the same lexeme. -/
def sticks (a b : Char) : Bool :=
  kind a = kind b ∧ (kind a = .word ∨ kind a = .operator)

/-- The lexemes of a text. -/
def read (text : List Char) : List String :=
  ((text.splitBy (sticks kind)).filter fun w => !w.all (kind · = .blank)).map String.ofList

/-- All characters of a text are of kind `k`. -/
def Uniform (k : Kind) (text : List Char) : Prop :=
  ∀ c ∈ text, kind c = k

-- By the list, not by going through all characters.
instance (k : Kind) (text : List Char) : Decidable (Uniform kind k text) :=
  List.decidableBAll _ _

variable {kind}

theorem Uniform.append {k : Kind} {xs ys : List Char} (hxs : Uniform kind k xs)
    (hys : Uniform kind k ys) : Uniform kind k (xs ++ ys) :=
  List.forall_mem_append.2 ⟨hxs, hys⟩

@[simp] theorem read_nil : read kind [] = [] := rfl

/-- Text can be read in two parts, where its characters do not stick together. -/
theorem read_append {xs ys : List Char}
    (h : ∀ x ∈ xs.getLast?, ∀ y ∈ ys.head?, sticks kind x y = false) :
    read kind (xs ++ ys) = read kind xs ++ read kind ys := by
  rw [read, List.splitBy_append h, List.filter_append, List.map_append]
  rfl

/-- A character that sticks to nothing can be read apart from what stands before it. -/
theorem read_append_cons {xs ys : List Char} {y : Char} (h : kind y = .blank ∨ kind y = .alone) :
    read kind (xs ++ y :: ys) = read kind xs ++ read kind (y :: ys) := by
  refine read_append fun x hx z hz => ?_
  obtain rfl : y = z := Option.some.inj hz
  grind [sticks]

/-- A character that sticks to nothing can be read apart from what follows it. -/
theorem read_cons {xs : List Char} {x : Char} (h : kind x = .blank ∨ kind x = .alone) :
    read kind (x :: xs) = read kind [x] ++ read kind xs := by
  rw [← List.singleton_append]
  refine read_append fun z hz y hy => ?_
  obtain rfl : x = z := Option.some.inj hz
  grind [sticks]

theorem read_blank {xs ys : List Char} (hxs : Uniform kind .blank xs) :
    read kind (xs ++ ys) = read kind ys := by
  induction xs with
  | nil => rfl
  | cons x xs ih =>
    obtain ⟨hx, hxs⟩ := List.forall_mem_cons.1 hxs
    have hone : read kind [x] = [] := by simp [read, List.splitBy, List.splitBy.loop, hx]
    rw [List.cons_append, read_cons (.inl hx), hone, ih hxs, List.nil_append]

/-- Characters of one kind that stick together are one lexeme. -/
theorem read_same {k : Kind} (hk : k = .word ∨ k = .operator) {xs : List Char}
    (hne : xs ≠ []) (hxs : Uniform kind k xs) : read kind xs = [String.ofList xs] := by
  have hsplit : xs.splitBy (sticks kind) = [xs] := by
    refine List.splitBy_of_isChain hne (List.Pairwise.isChain ?_)
    refine List.pairwise_iff_forall_sublist.2 fun {a b} hab => ?_
    have ha := hxs a (hab.mem (by simp))
    have hb := hxs b (hab.mem (by simp))
    simp [sticks, ha, hb, hk]
  obtain ⟨c, hc⟩ := List.exists_mem_of_ne_nil xs hne
  have hall : xs.all (kind · = .blank) = false := by
    rw [List.all_eq_false]
    refine ⟨c, hc, ?_⟩
    rw [hxs c hc]
    rcases hk with rfl | rfl <;> decide
  simp [read, hsplit, hall]

/-! ## Numbers -/

/-- The number that a lexeme is, if it is one. -/
def number? (s : String) : Option Nat :=
  if s.toList ≠ [] ∧ s.toList.all Char.isDigit then some (Nat.ofDigitChars 10 s.toList 0) else none

theorem toList_toString (n : Nat) : (toString n).toList = Nat.toDigits 10 n :=
  Nat.toList_repr

theorem toList_toString_ne_nil (n : Nat) : (toString n).toList ≠ [] := by
  rw [toList_toString]
  exact Nat.toDigits_ne_nil

theorem isDigit_of_mem_toString {n : Nat} {c : Char} (h : c ∈ (toString n).toList) : c.isDigit := by
  rw [toList_toString] at h
  exact Nat.isDigit_of_mem_toDigits (by decide) (by decide) h

theorem number?_toString (n : Nat) : number? (toString n) = some n := by
  have hdigits : (toString n).toList.all Char.isDigit := by
    rw [List.all_eq_true]
    exact fun c => isDigit_of_mem_toString
  rw [number?, if_pos ⟨toList_toString_ne_nil n, hdigits⟩, toList_toString,
    Nat.ofDigitChars_ten_toDigits]

end TapeCompiler.Lexeme
