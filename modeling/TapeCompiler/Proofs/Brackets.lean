import Mathlib.Algebra.Order.Ring.Int
import Mathlib.Data.List.Basic

/-!
# Brackets

Some elements of a list open a bracket (weight one), some close one (weight minus
one), and the rest do neither. The *depth* of a list is what it opens and does not
close.

  * `Brackets.Balanced`: no prefix closes more than it opens, and nothing is left
    open.
  * `Brackets.Opened`: the list splits into balanced pieces with an opening bracket
    between each two of them, at the given indices, the last one first.
  * `Opened.lastUnmatched`: the first of these indices is the last bracket that is
    never closed.
  * `Brackets.Peak`: the greatest depth that a prefix of the list has.

`Opened` is what a reader keeps while it goes through a list element by element; the
`Opened.snoc` lemmas say what one element does to it.
-/

namespace TapeCompiler.Brackets

variable {α : Type*} (weight : α → Int)

/-- What the list opens less what it closes. -/
def depth (l : List α) : Int :=
  (l.map weight).sum

/-- No prefix of the list closes more than it opens. -/
def NeverBelow (l : List α) : Prop :=
  ∀ n, 0 ≤ depth weight (l.take n)

/-- Every bracket of the list has its partner in the list. -/
structure Balanced (l : List α) : Prop where
  neverBelow : NeverBelow weight l
  level : depth weight l = 0

/-- The element at `i` opens a bracket that is never closed. -/
def Unmatched (l : List α) (i : Nat) : Prop :=
  (∃ a, l[i]? = some a ∧ weight a = 1) ∧ NeverBelow weight (l.drop (i + 1))

/-- The brackets that are open at the end of the list are those at the indices
    `is`, the last one first. -/
inductive Opened : List Nat → List α → Prop
  | level {l : List α} : Balanced weight l → Opened [] l
  | enter {is : List Nat} {before after : List α} {a : α} : Opened is before → weight a = 1 →
      Balanced weight after → Opened (before.length :: is) (before ++ a :: after)

variable {weight}

@[simp] theorem depth_nil : depth weight [] = 0 := rfl

@[simp] theorem depth_cons (a : α) (l : List α) : depth weight (a :: l) = weight a + depth weight l := by
  simp [depth]

@[simp] theorem depth_append (xs ys : List α) :
    depth weight (xs ++ ys) = depth weight xs + depth weight ys := by
  simp [depth]

theorem NeverBelow.depth_nonneg {l : List α} (h : NeverBelow weight l) : 0 ≤ depth weight l := by
  simpa using h l.length

/-- A list goes on where its front has left off. -/
theorem neverBelow_append {xs ys : List α} (hx : NeverBelow weight xs)
    (hy : ∀ n, 0 ≤ depth weight xs + depth weight (ys.take n)) : NeverBelow weight (xs ++ ys) := by
  intro n
  rw [List.take_append, depth_append]
  rcases Nat.le_total n xs.length with hn | hn
  · rw [Nat.sub_eq_zero_of_le hn, List.take_zero, depth_nil, add_zero]
    exact hx n
  · rw [List.take_of_length_le hn]
    exact hy _

theorem balanced_nil : Balanced weight ([] : List α) :=
  ⟨fun n => by simp, rfl⟩

theorem Balanced.append {xs ys : List α} (hx : Balanced weight xs) (hy : Balanced weight ys) :
    Balanced weight (xs ++ ys) where
  neverBelow := neverBelow_append hx.neverBelow fun n => by
    rw [hx.level, zero_add]
    exact hy.neverBelow n
  level := by rw [depth_append, hx.level, hy.level, add_zero]

theorem balanced_plain {a : α} (ha : weight a = 0) : Balanced weight [a] where
  neverBelow := fun n => by cases n <;> simp [ha]
  level := by simp [ha]

theorem Balanced.wrap {a b : α} {l : List α} (ha : weight a = 1) (hb : weight b = -1)
    (hl : Balanced weight l) : Balanced weight (a :: (l ++ [b])) where
  neverBelow := by
    have hopen : NeverBelow weight [a] := fun n => by cases n <;> simp [ha]
    have hclose : ∀ n, 0 ≤ depth weight [a] + depth weight ((l ++ [b]).take n) := by
      intro n
      have := hl.neverBelow n
      rw [List.take_append, depth_append]
      cases n - l.length <;> simp [ha, hb] <;> omega
    exact neverBelow_append hopen hclose
  level := by simp [ha, hb, hl.level]

/-! ## Leaving out what is no bracket -/

section Filter

variable {p : α → Bool} (h : ∀ a, p a = false → weight a = 0)
include h

theorem depth_filter (l : List α) : depth weight (l.filter p) = depth weight l := by
  induction l with
  | nil => rfl
  | cons a l ih =>
    rw [List.filter_cons, depth_cons]
    cases ha : p a with
    | false => rw [if_neg Bool.false_ne_true, ih, h a ha, zero_add]
    | true => rw [if_pos rfl, depth_cons, ih]

/-- A front of the list has the depth of a front of what is left. -/
theorem exists_depth_take_filter (l : List α) (n : Nat) :
    ∃ m, depth weight ((l.filter p).take m) = depth weight (l.take n) := by
  have hfront : (l.take n).filter p = (l.filter p).take ((l.take n).filter p).length := by
    rw [← List.prefix_iff_eq_take]
    exact (List.take_prefix n l).filter p
  exact ⟨_, by rw [← hfront, depth_filter h]⟩

/-- A front of what is left has the depth of a front of the list. -/
theorem exists_depth_take_of_filter (l : List α) (n : Nat) :
    ∃ m, depth weight (l.take m) = depth weight ((l.filter p).take n) := by
  obtain ⟨xs, ys, rfl, hxs, -⟩ :=
    List.filter_eq_append_iff.1 (List.take_append_drop n (l.filter p)).symm
  refine ⟨xs.length, ?_⟩
  rw [List.take_left, ← hxs, depth_filter h]

theorem neverBelow_filter (l : List α) : NeverBelow weight (l.filter p) ↔ NeverBelow weight l := by
  constructor
  · intro hl n
    obtain ⟨m, hm⟩ := exists_depth_take_filter h l n
    exact hm ▸ hl m
  · intro hl n
    obtain ⟨m, hm⟩ := exists_depth_take_of_filter h l n
    exact hm ▸ hl m

end Filter

/-! ## The greatest depth -/

section Peak

variable (weight) in
/-- The greatest depth of a front of the list. -/
structure Peak (l : List α) (d : Int) : Prop where
  attained : ∃ n, depth weight (l.take n) = d
  le : ∀ n, depth weight (l.take n) ≤ d

variable {l xs ys : List α} {d e : Int} {a b : α}

/-- The empty front is one of the fronts. -/
theorem Peak.nonneg (h : Peak weight l d) : 0 ≤ d := by
  simpa using h.le 0

theorem peak_nil : Peak weight ([] : List α) 0 :=
  ⟨⟨0, rfl⟩, fun n => by simp⟩

theorem Peak.cons (h : Peak weight l d) (a : α) : Peak weight (a :: l) (max 0 (weight a + d)) where
  attained := by
    rcases le_total (weight a + d) 0 with hle | hle
    · exact ⟨0, by rw [max_eq_left hle]; rfl⟩
    · obtain ⟨n, hn⟩ := h.attained
      exact ⟨n + 1, by rw [max_eq_right hle, List.take_succ_cons, depth_cons, hn]⟩
  le
    | 0 => by simp
    | n + 1 => by
      have := h.le n
      rw [List.take_succ_cons, depth_cons]
      omega

/-- A list without brackets. -/
theorem peak_plain (h : ∀ a ∈ l, weight a = 0) : Peak weight l 0 := by
  induction l with
  | nil => exact peak_nil
  | cons a l ih =>
    obtain ⟨ha, hl⟩ := List.forall_mem_cons.1 h
    have hpeak := (ih hl).cons a
    rwa [ha] at hpeak

/-- A list whose brackets are all closed lets what follows start from zero. -/
theorem Peak.append (hx : Peak weight xs d) (hlevel : depth weight xs = 0) (hy : Peak weight ys e) :
    Peak weight (xs ++ ys) (max d e) where
  attained := by
    rcases le_total e d with hle | hle
    · obtain ⟨n, hn⟩ := hx.attained
      refine ⟨min n xs.length, ?_⟩
      rw [max_eq_left hle, List.take_append_of_le_length (Nat.min_le_right _ _),
        ← List.take_eq_take_min, hn]
    · obtain ⟨n, hn⟩ := hy.attained
      refine ⟨xs.length + n, ?_⟩
      rw [max_eq_right hle, List.take_length_add_append, depth_append, hlevel, hn, zero_add]
  le n := by
    rw [List.take_append, depth_append]
    rcases Nat.le_total n xs.length with hn | hn
    · rw [Nat.sub_eq_zero_of_le hn, List.take_zero, depth_nil, add_zero]
      exact (hx.le n).trans (le_max_left d e)
    · rw [List.take_of_length_le hn, hlevel, zero_add]
      exact (hy.le _).trans (le_max_right d e)

theorem Peak.wrap (h : Peak weight l d) (hlevel : depth weight l = 0) (ha : weight a = 1)
    (hb : weight b = -1) : Peak weight (a :: (l ++ [b])) (d + 1) := by
  have hclose : max 0 (weight b + 0) = 0 := by rw [hb]; rfl
  have hinner := h.append hlevel (hclose ▸ peak_nil.cons b)
  have hnonneg := h.nonneg
  have hd : max 0 (weight a + max d 0) = d + 1 := by omega
  exact hd ▸ hinner.cons a

/-- What is no bracket does not matter. -/
theorem Peak.of_filter {p : α → Bool} (hp : ∀ a, p a = false → weight a = 0)
    (h : Peak weight (l.filter p) d) : Peak weight l d where
  attained := by
    obtain ⟨n, hn⟩ := h.attained
    obtain ⟨m, hm⟩ := exists_depth_take_of_filter hp l n
    exact ⟨m, hm.trans hn⟩
  le n := by
    obtain ⟨m, hm⟩ := exists_depth_take_filter hp l n
    exact hm ▸ h.le m

end Peak

/-! ## Going through a list -/

namespace Opened

variable {is : List Nat} {l : List α} {a : α}

theorem depth_eq (h : Opened weight is l) : depth weight l = is.length := by
  induction h with
  | level hl => rw [hl.level]; rfl
  | enter _ ha hafter ih => simp [ih, ha, hafter.level]

theorem neverBelow (h : Opened weight is l) : NeverBelow weight l := by
  induction h with
  | level hl => exact hl.neverBelow
  | enter hbefore ha hafter ih =>
    refine neverBelow_append ih fun n => ?_
    have hdepth := hbefore.depth_eq
    cases n with
    | zero => simp [hdepth]
    | succ n =>
      have := hafter.neverBelow n
      rw [List.take_succ_cons, depth_cons, ha, hdepth]
      omega

/-- A balanced piece leaves open what is open. -/
theorem append_balanced {m : List α} (h : Opened weight is l) (hm : Balanced weight m) :
    Opened weight is (l ++ m) := by
  cases h with
  | level hl => exact .level (hl.append hm)
  | enter hbefore ha hafter =>
    rw [List.append_assoc, List.cons_append]
    exact .enter hbefore ha (hafter.append hm)

theorem snoc_plain (h : Opened weight is l) (ha : weight a = 0) : Opened weight is (l ++ [a]) :=
  h.append_balanced (balanced_plain ha)

theorem snoc_open (h : Opened weight is l) (ha : weight a = 1) :
    Opened weight (l.length :: is) (l ++ [a]) :=
  .enter h ha balanced_nil

theorem snoc_close {i : Nat} (h : Opened weight (i :: is) l) (ha : weight a = -1) :
    Opened weight is (l ++ [a]) := by
  cases h with
  | enter hbefore hb hafter =>
    rw [List.append_assoc, List.cons_append]
    exact hbefore.append_balanced (hafter.wrap hb ha)

theorem lt_length {i : Nat} (h : Opened weight is l) (hi : i ∈ is) : i < l.length := by
  induction h with
  | level => cases hi
  | enter _ _ _ ih =>
    rw [List.length_append, List.length_cons]
    rcases List.mem_cons.1 hi with rfl | hi
    · omega
    · have := ih hi
      omega

/-- The innermost open bracket is the last one that is never closed. -/
theorem lastUnmatched {i : Nat} (h : Opened weight (i :: is) l) :
    Unmatched weight l i ∧ ∀ j, Unmatched weight l j → j ≤ i := by
  cases h with
  | @enter _ before after a hbefore ha hafter =>
    refine ⟨⟨⟨a, by simp, ha⟩, ?_⟩, ?_⟩
    · rw [List.drop_length_add_append]
      exact hafter.neverBelow
    · rintro j ⟨⟨b, hb, hwb⟩, hj⟩
      by_contra hlt
      -- The bracket at `j` lies in the balanced piece, which would then stay open.
      obtain ⟨k, rfl⟩ : ∃ k, j = before.length + (k + 1) := ⟨j - before.length - 1, by omega⟩
      rw [List.getElem?_append_right (by omega), Nat.add_sub_cancel_left, List.getElem?_cons_succ] at hb
      rw [Nat.add_assoc, List.drop_length_add_append, List.drop_succ_cons] at hj
      have hsplit : after = after.take k ++ b :: after.drop (k + 1) := by
        obtain ⟨hk, rfl⟩ := List.getElem?_eq_some_iff.1 hb
        rw [List.getElem_cons_drop, List.take_append_drop]
      have hlevel := hafter.level
      rw [hsplit, depth_append, depth_cons, hwb] at hlevel
      have := hafter.neverBelow k
      have := hj.depth_nonneg
      omega

end Opened

end TapeCompiler.Brackets
