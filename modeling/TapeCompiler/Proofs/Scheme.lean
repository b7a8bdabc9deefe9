import TapeCompiler.Proofs.Tree

/-!
# Schemes

Both targets, and the source language itself, write a tree down in the same way: a
leaf is some items, a loop is some items, the items of its body and some more items.
A `Scheme` says which items these are. Loops are numbered as a counter hands out
labels, two for each loop in preorder, so the items of a loop may depend on how many
labels were issued before it.

  * `Scheme.block`: the items of a statement list.
  * `Scheme.At`: where a machine can stand in the items of a program when the
    statements that are left to do are known. Inside a loop that includes the loop
    itself, so a position at the end of its body is one *in front of* the loop again.
-/

namespace TapeCompiler

/-- A way to write trees down. -/
structure Scheme (α : Type*) where
  /-- The items of a leaf. -/
  leaf : Stmt → List α
  /-- What stands before the body of a loop, after so many labels. -/
  enter : Nat → List α
  /-- What stands after the body of a loop. -/
  exit : Nat → List α

namespace Scheme

variable {α β : Type*}

mutual

/-- The items of a statement, after `n` labels. -/
def stmt (S : Scheme α) (n : Nat) : Stmt → List α
  | .loop _ body _ => S.enter n ++ block S (n + 2) body ++ S.exit n
  | s => S.leaf s

/-- The items of a statement list, after `n` labels. -/
def block (S : Scheme α) (n : Nat) : List Stmt → List α
  | [] => []
  | s :: rest => stmt S n s ++ block S (n + 2 * s.loopCount) rest

end

variable {S : Scheme α}

theorem stmt_leaf {s : Stmt} (hs : s.isLoop = false) (n : Nat) : S.stmt n s = S.leaf s := by
  cases s with
  | loop => cases hs
  | _ => rfl

theorem block_leaf {s : Stmt} (hs : s.isLoop = false) (n : Nat) (rest : List Stmt) :
    S.block n (s :: rest) = S.leaf s ++ S.block n rest := by
  rw [block, stmt_leaf hs, Stmt.loopCount_leaf hs, Nat.mul_zero, Nat.add_zero]

theorem block_loop (n : Nat) (pos : Pos) (body : List Stmt) (close : Pos) (rest : List Stmt) :
    S.block n (.loop pos body close :: rest) =
      S.enter n ++ S.block (n + 2) body ++ S.exit n ++
        S.block (n + 2 + 2 * Stmt.loopCountList body) rest := by
  rw [block, stmt, Stmt.loopCount, Nat.mul_add, Nat.add_comm (2 * _), ← Nat.add_assoc]

/-- What holds for the items of leaves and loops holds for all items. -/
theorem forall_mem_block {P : α → Prop}
    (hleaf : ∀ s : Stmt, s.isLoop = false → s.isKnown → ∀ x ∈ S.leaf s, P x)
    (henter : ∀ n, ∀ x ∈ S.enter n, P x) (hexit : ∀ n, ∀ x ∈ S.exit n, P x) {body : List Stmt}
    (hknown : Stmt.Everywhere (·.isKnown) body) (n : Nat) : ∀ x ∈ S.block n body, P x := by
  induction body using Stmt.listInduction generalizing n with
  | nil => exact fun x hx => absurd hx List.not_mem_nil
  | leaf s rest hs ih =>
    rw [block_leaf hs, List.forall_mem_append]
    exact ⟨hleaf s hs hknown.head, ih hknown.tail n⟩
  | loop pos body close rest ihbody ih =>
    obtain ⟨-, hbody, hrest⟩ := (Stmt.everywhere_loop ..).1 hknown
    simp only [block_loop, List.forall_mem_append]
    exact ⟨⟨⟨henter n, ihbody hbody _⟩, hexit n⟩, ih hrest _⟩

/-! ## Parts of a list -/

/-- The items `part` stand in the list `whole` from the index `pc` on. -/
def Sits (whole : List α) (pc : Nat) (part : List α) : Prop :=
  ∃ before after, whole = before ++ part ++ after ∧ before.length = pc

namespace Sits

variable {whole xs ys : List α} {pc : Nat} {x : α}

theorem all (whole : List α) : Sits whole 0 whole :=
  ⟨[], [], by simp, rfl⟩

theorem left (h : Sits whole pc (xs ++ ys)) : Sits whole pc xs := by
  obtain ⟨before, after, rfl, rfl⟩ := h
  exact ⟨before, ys ++ after, by simp, rfl⟩

theorem right (h : Sits whole pc (xs ++ ys)) : Sits whole (pc + xs.length) ys := by
  obtain ⟨before, after, rfl, rfl⟩ := h
  exact ⟨before ++ xs, after, by simp, by simp⟩

theorem head (h : Sits whole pc (x :: xs)) : whole[pc]? = some x := by
  obtain ⟨before, after, rfl, rfl⟩ := h
  simp

theorem tail (h : Sits whole pc (x :: xs)) : Sits whole (pc + 1) xs := by
  rw [← List.singleton_append] at h
  exact h.right

end Sits

/-! ## Places in a program -/

/-- A machine that stands at `pc` in the items `whole` of a program has the
    statements of the list left to do; `stop` is where there are none left. -/
inductive At (S : Scheme α) (whole : List α) (stop : Nat) : Nat → List Stmt → Prop
  | stop : At S whole stop stop []
  /-- The items of the next statement follow. -/
  | ahead {n pc : Nat} {s : Stmt} {rest : List Stmt} : Sits whole pc (S.stmt n s) →
      At S whole stop (pc + (S.stmt n s).length) rest → At S whole stop pc (s :: rest)
  /-- The body of a loop has ended; the loop is tested again. -/
  | back {n pc : Nat} {pos close : Pos} {body rest : List Stmt} :
      Sits whole pc (S.stmt n (.loop pos body close)) →
      At S whole stop (pc + (S.stmt n (.loop pos body close)).length) rest →
      At S whole stop (pc + (S.enter n).length + (S.block (n + 2) body).length)
        (.loop pos body close :: rest)

theorem At.block {whole : List α} {stop : Nat} {rest : List Stmt} :
    ∀ {n pc : Nat} {body : List Stmt}, Sits whole pc (S.block n body) →
      At S whole stop (pc + (S.block n body).length) rest → At S whole stop pc (body ++ rest)
  | _, _, [], _, h => h
  | n, pc, s :: body, hsits, h => by
    rw [Scheme.block, List.length_append, ← Nat.add_assoc] at h
    exact .ahead hsits.left (At.block hsits.right h)

/-- Entering a loop leaves its body to do, and then the loop again. -/
theorem At.body {whole : List α} {stop n pc : Nat} {pos close : Pos} {body rest : List Stmt}
    (hsits : Sits whole pc (S.stmt n (.loop pos body close)))
    (h : At S whole stop (pc + (S.stmt n (.loop pos body close)).length) rest) :
    At S whole stop (pc + (S.enter n).length) (body ++ .loop pos body close :: rest) := by
  have hparts := hsits
  rw [stmt, List.append_assoc] at hparts
  exact At.block hparts.right.left (.back hsits h)

end Scheme

end TapeCompiler
