import Mathlib.Data.List.Chain
import TapeCompiler.Program.Basic

/-!
# The theory of trees

What the later modules say about trees is said with a few notions:

  * `Stmt.listInduction`: induction over a statement list that goes into the bodies
    of its loops;
  * `Stmt.nodesList`: all statements of a list at any depth, in preorder, and
    `Stmt.Everywhere`, what holds for each of them;
  * `Stmt.commandsList`: the commands a list stands for;
  * `Stmt.Merged`: no two neighbours are runs of the same step;
  * `Stmt.bareList`: a list without its positions.

The main result is `Stmt.bareList_inj_of_commandsList`: among the lists that are
known, counted and merged, the commands determine the list up to positions.
-/

namespace TapeCompiler

theorem Step.command_injective : Function.Injective Step.command := by
  intro a b h
  cases a <;> cases b <;> simp_all [command]

/-- A foreign kind has no name of the language's own. -/
theorem ForeignName.text_ne (kind : ForeignName) {name : String} (h : '.' ∉ name.toList) :
    kind.text ≠ name := by
  rintro rfl
  exact h kind.qualified

namespace Stmt

/-- Whether the statement is a loop. -/
def isLoop : Stmt → Bool
  | loop .. => true
  | _ => false

/-- The statements inside a loop; a leaf has none. -/
def body : Stmt → List Stmt
  | loop _ body _ => body
  | _ => []

/-- Whether the statement is of a kind the compiler knows. -/
def isKnown : Stmt → Bool
  | foreign .. | absent => false
  | _ => true

/-- Whether the statement stands for at least one command, as far as it has a
    count. -/
def isCounted : Stmt → Bool
  | repeated _ _ n => 1 ≤ n
  | _ => true

/-- Induction over a statement list: a loop at its front gives the hypothesis for
    the body as well as for the rest. -/
@[elab_as_elim]
theorem listInduction {motive : List Stmt → Prop} (nil : motive [])
    (leaf : ∀ (s : Stmt) (rest : List Stmt), s.isLoop = false → motive rest → motive (s :: rest))
    (loop : ∀ (pos : Pos) (body : List Stmt) (close : Pos) (rest : List Stmt),
      motive body → motive rest → motive (.loop pos body close :: rest))
    (body : List Stmt) : motive body :=
  @Stmt.rec_1 (fun s => ∀ rest, motive rest → motive (s :: rest)) motive
    (fun step pos count rest => leaf (.repeated step pos count) rest rfl)
    (fun pos rest => leaf (.printChar pos) rest rfl)
    (fun pos rest => leaf (.readChar pos) rest rfl)
    (fun pos body close hbody rest => loop pos body close rest hbody)
    (fun kind pos rest => leaf (.foreign kind pos) rest rfl)
    (fun rest => leaf .absent rest rfl)
    nil (fun _ rest hs hrest => hs rest hrest) body

/-! ## All statements of a tree -/

mutual

/-- The statement and all statements inside it, in preorder. -/
def nodes : Stmt → List Stmt
  | .loop pos body close => .loop pos body close :: nodesList body
  | s => [s]

/-- All statements of a list and inside it, in preorder. -/
def nodesList : List Stmt → List Stmt
  | [] => []
  | s :: rest => s.nodes ++ nodesList rest

end

/-- `P` holds for every statement of the list, at any depth. -/
def Everywhere (P : Stmt → Prop) (body : List Stmt) : Prop :=
  ∀ s ∈ nodesList body, P s

instance (P : Stmt → Prop) [DecidablePred P] (body : List Stmt) : Decidable (Everywhere P body) :=
  inferInstanceAs (Decidable (∀ s ∈ nodesList body, P s))

section Everywhere

variable {P Q : Stmt → Prop}

@[simp] theorem everywhere_nil : Everywhere P [] := by
  simp [Everywhere, nodesList]

theorem nodes_leaf {s : Stmt} (hs : s.isLoop = false) : s.nodes = [s] := by
  cases s with
  | loop => cases hs
  | _ => rfl

theorem everywhere_leaf {s : Stmt} (hs : s.isLoop = false) (rest : List Stmt) :
    Everywhere P (s :: rest) ↔ P s ∧ Everywhere P rest := by
  simp [Everywhere, nodesList, nodes_leaf hs]

@[simp] theorem everywhere_loop (pos : Pos) (body : List Stmt) (close : Pos) (rest : List Stmt) :
    Everywhere P (.loop pos body close :: rest) ↔
      P (.loop pos body close) ∧ Everywhere P body ∧ Everywhere P rest := by
  simp only [Everywhere, nodesList, nodes, List.cons_append, List.forall_mem_cons,
    List.forall_mem_append]

theorem nodesList_append (xs ys : List Stmt) :
    nodesList (xs ++ ys) = nodesList xs ++ nodesList ys := by
  induction xs with
  | nil => rfl
  | cons s xs ih => rw [List.cons_append, nodesList, nodesList, ih, List.append_assoc]

@[simp] theorem everywhere_append (xs ys : List Stmt) :
    Everywhere P (xs ++ ys) ↔ Everywhere P xs ∧ Everywhere P ys := by
  simp only [Everywhere, nodesList_append, List.forall_mem_append]

/-- The statements of a list can be taken in any order. -/
@[simp] theorem everywhere_reverse (xs : List Stmt) :
    Everywhere P xs.reverse ↔ Everywhere P xs := by
  induction xs with
  | nil => rfl
  | cons s xs ih =>
    rw [List.reverse_cons, everywhere_append, ih, and_comm, ← everywhere_append, List.singleton_append]

theorem Everywhere.head {s : Stmt} {rest : List Stmt} (h : Everywhere P (s :: rest)) : P s := by
  refine h s (List.mem_append_left _ ?_)
  cases s <;> simp [nodes]

theorem Everywhere.tail {s : Stmt} {rest : List Stmt} (h : Everywhere P (s :: rest)) :
    Everywhere P rest :=
  fun t ht => h t (List.mem_append_right _ ht)

theorem Everywhere.and {body : List Stmt} (hP : Everywhere P body) (hQ : Everywhere Q body) :
    Everywhere (fun s => P s ∧ Q s) body :=
  fun s hs => ⟨hP s hs, hQ s hs⟩

theorem Everywhere.imp {body : List Stmt} (hP : Everywhere P body) (h : ∀ s, P s → Q s) :
    Everywhere Q body :=
  fun s hs => h s (hP s hs)

end Everywhere

/-! ## The commands of a tree -/

mutual

/-- The commands a statement stands for. -/
def commands : Stmt → List Command
  | .repeated step _ n => List.replicate n step.command
  | .printChar _ => [.put]
  | .readChar _ => [.get]
  | .loop _ body _ => .enter :: (commandsList body ++ [.leave])
  | .foreign .. | .absent => []

/-- The commands a statement list stands for. -/
def commandsList : List Stmt → List Command
  | [] => []
  | s :: rest => s.commands ++ commandsList rest

end

@[simp] theorem commandsList_append (xs ys : List Stmt) :
    commandsList (xs ++ ys) = commandsList xs ++ commandsList ys := by
  induction xs with
  | nil => rfl
  | cons s xs ih => rw [List.cons_append, commandsList, commandsList, ih, List.append_assoc]

/-! ## The loops of a tree -/

mutual

/-- The number of loops of a statement, itself included. -/
def loopCount : Stmt → Nat
  | .loop _ body _ => loopCountList body + 1
  | _ => 0

/-- The number of loops of a statement list, at any depth. -/
def loopCountList : List Stmt → Nat
  | [] => 0
  | s :: rest => s.loopCount + loopCountList rest

end

theorem loopCount_leaf {s : Stmt} (hs : s.isLoop = false) : s.loopCount = 0 := by
  cases s with
  | loop => cases hs
  | _ => rfl

/-! ## Merged lists -/

/-- Whether two statements are runs of the same step. -/
def sameRun : Stmt → Stmt → Bool
  | repeated a _ _, repeated b _ _ => a = b
  | _, _ => false

theorem sameRun_comm (s t : Stmt) : s.sameRun t = t.sameRun s := by
  cases s <;> cases t <;> simp [sameRun, eq_comm]

/-- Only the step of a run matters. -/
theorem sameRun_repeated {step : Step} (pos pos' : Pos) (n m : Nat) (t : Stmt) :
    sameRun (.repeated step pos n) t = sameRun (.repeated step pos' m) t := by
  cases t <;> rfl

/-- Neighbours in the list are never runs of the same step. -/
def Apart (body : List Stmt) : Prop :=
  body.IsChain fun s t => s.sameRun t = false

/-- Neighbours are never runs of the same step, in the list itself and in the body
    of any loop inside it. -/
def Merged (body : List Stmt) : Prop :=
  Apart body ∧ Everywhere (fun s => Apart s.body) body

instance (body : List Stmt) : Decidable (Apart body) :=
  inferInstanceAs (Decidable (List.IsChain _ body))

instance (body : List Stmt) : Decidable (Merged body) :=
  inferInstanceAs (Decidable (_ ∧ _))

theorem apart_reverse (body : List Stmt) : Apart body.reverse ↔ Apart body := by
  simp only [Apart, List.isChain_reverse, sameRun_comm]

theorem Apart.tail {s : Stmt} {rest : List Stmt} (h : Apart (s :: rest)) : Apart rest :=
  List.IsChain.tail h

theorem Merged.tail {s : Stmt} {rest : List Stmt} (h : Merged (s :: rest)) : Merged rest :=
  ⟨h.1.tail, h.2.tail⟩

theorem Merged.body {pos close : Pos} {body rest : List Stmt}
    (h : Merged (.loop pos body close :: rest)) : Merged body :=
  ⟨h.2.head, ((everywhere_loop ..).1 h.2).2.1⟩

/-! ## Trees without positions -/

mutual

/-- The statement with all positions forgotten. -/
def bare : Stmt → Stmt
  | .repeated step _ n => .repeated step {} n
  | .printChar _ => .printChar {}
  | .readChar _ => .readChar {}
  | .loop _ body _ => .loop {} (bareList body) {}
  | .foreign kind _ => .foreign kind {}
  | .absent => .absent

/-- The list with all positions forgotten. -/
def bareList : List Stmt → List Stmt
  | [] => []
  | s :: rest => s.bare :: bareList rest

end

/-! ## Commands determine merged trees -/

/-- The first command of a statement. -/
def lead : Stmt → Option Command
  | repeated step _ _ => some step.command
  | printChar _ => some .put
  | readChar _ => some .get
  | loop .. => some .enter
  | foreign .. | absent => none

/-- Every statement is of a known kind and stands for at least one command. -/
def Sound (body : List Stmt) : Prop :=
  Everywhere (fun s => s.isKnown ∧ s.isCounted) body

theorem commands_eq_lead_cons {s : Stmt} (hk : s.isKnown) (hc : s.isCounted) :
    ∃ c cs, s.commands = c :: cs ∧ s.lead = some c ∧ c ≠ .leave := by
  cases s with
  | repeated step pos n =>
    obtain ⟨n, rfl⟩ : ∃ m, n = m + 1 := Nat.exists_eq_add_of_le' (by simpa [isCounted] using hc)
    exact ⟨step.command, _, rfl, rfl, by cases step <;> decide⟩
  | printChar | readChar | loop => exact ⟨_, _, rfl, rfl, by decide⟩
  | foreign | absent => cases hk

/-- What follows a statement list: nothing, or the bracket that closes the loop
    around it. -/
def Closes (after : List Command) : Prop :=
  ∀ c ∈ after.head?, c = .leave

theorem head?_commandsList {body : List Stmt} {after : List Command} (hb : Sound body)
    (ha : Closes after) {c : Command} (hc : c ≠ .leave)
    (h : (commandsList body ++ after).head? = some c) :
    ∃ s rest, body = s :: rest ∧ s.lead = some c := by
  cases body with
  | nil => exact absurd (ha c h) hc
  | cons s rest =>
    obtain ⟨d, ds, hs, hd, -⟩ := commands_eq_lead_cons hb.head.1 hb.head.2
    rw [commandsList, hs, List.cons_append, List.cons_append, List.head?_cons] at h
    exact ⟨s, rest, rfl, hd.trans h⟩

/-- A run ends where its command is followed by something else. -/
theorem replicate_append_inj {c : Command} {xs ys : List Command} (hx : xs.head? ≠ some c)
    (hy : ys.head? ≠ some c) :
    ∀ {n m : Nat}, List.replicate n c ++ xs = List.replicate m c ++ ys → n = m ∧ xs = ys
  | 0, 0, h => ⟨rfl, h⟩
  | 0, _ + 1, h => absurd (congrArg List.head? h) hx
  | _ + 1, 0, h => absurd (congrArg List.head? h).symm hy
  | n + 1, m + 1, h => by
    obtain ⟨hn, hxy⟩ := replicate_append_inj hx hy (List.cons.inj h).2
    exact ⟨by rw [hn], hxy⟩

/-- After a run the commands go on with something else. -/
theorem head?_after_run {step : Step} {pos : Pos} {n : Nat} {rest : List Stmt}
    {after : List Command} (hs : Sound rest) (hm : Apart (.repeated step pos n :: rest))
    (ha : Closes after) : (commandsList rest ++ after).head? ≠ some step.command := by
  intro h
  obtain ⟨s, rest, rfl, hl⟩ := head?_commandsList hs ha (by cases step <;> decide) h
  have hapart := (List.isChain_cons_cons.1 hm).1
  cases s with
  | repeated step' =>
    have hstep : step' = step := Step.command_injective (Option.some.inj hl)
    simp [sameRun, hstep] at hapart
  | _ => cases step <;> cases hl

theorem eq_repeated_of_lead {s : Stmt} {step : Step} (h : s.lead = some step.command) :
    ∃ pos n, s = .repeated step pos n := by
  cases s with
  | repeated step' pos n => exact ⟨pos, n, by rw [Step.command_injective (Option.some.inj h)]⟩
  | _ => cases step <;> cases h

theorem eq_printChar_of_lead {s : Stmt} (h : s.lead = some .put) : ∃ pos, s = .printChar pos := by
  cases s with
  | printChar pos => exact ⟨pos, rfl⟩
  | repeated step => cases step <;> cases h
  | _ => cases h

theorem eq_readChar_of_lead {s : Stmt} (h : s.lead = some .get) : ∃ pos, s = .readChar pos := by
  cases s with
  | readChar pos => exact ⟨pos, rfl⟩
  | repeated step => cases step <;> cases h
  | _ => cases h

theorem eq_loop_of_lead {s : Stmt} (h : s.lead = some .enter) :
    ∃ pos body close, s = .loop pos body close := by
  cases s with
  | loop pos body close => exact ⟨pos, body, close, rfl⟩
  | repeated step => cases step <;> cases h
  | _ => cases h

/-- The commands of a list that is sound and merged determine it up to positions,
    whatever closes it. -/
theorem bareList_inj_of_commandsList {xs : List Stmt} : ∀ {ys : List Stmt} {us vs : List Command},
    Sound xs → Sound ys → Merged xs → Merged ys → Closes us → Closes vs →
    commandsList xs ++ us = commandsList ys ++ vs → bareList xs = bareList ys ∧ us = vs := by
  induction xs using listInduction with
  | nil =>
    intro ys us vs _ hys _ _ hus _ h
    cases ys with
    | nil => exact ⟨rfl, h⟩
    | cons t ys =>
      -- `ys` starts with a command that cannot stand at the front of `us`.
      obtain ⟨c, cs, ht, -, hc⟩ := commands_eq_lead_cons hys.head.1 hys.head.2
      have hu : us = c :: (cs ++ (commandsList ys ++ vs)) := by
        simpa [commandsList, ht] using h
      exact absurd (hus c (by rw [hu]; rfl)) hc
  | leaf s rest hs ih =>
    intro ys us vs hxs hys hmx hmy hus hvs h
    obtain ⟨c, cs, hcs, hl, hc⟩ := commands_eq_lead_cons hxs.head.1 hxs.head.2
    obtain ⟨t, ys, rfl, ht⟩ := head?_commandsList hys hvs hc (by rw [← h, commandsList, hcs]; rfl)
    rw [← hl] at ht
    simp only [commandsList, List.append_assoc] at h
    cases s with
    | repeated step pos n =>
      obtain ⟨pos', m, rfl⟩ := eq_repeated_of_lead ht
      -- Both runs are maximal, so they have the same length.
      obtain ⟨rfl, h'⟩ := replicate_append_inj (head?_after_run hxs.tail hmx.1 hus)
        (head?_after_run hys.tail hmy.1 hvs) h
      obtain ⟨hrest, huv⟩ := ih hxs.tail hys.tail hmx.tail hmy.tail hus hvs h'
      exact ⟨by simp only [bareList, bare, hrest], huv⟩
    | printChar pos =>
      obtain ⟨pos', rfl⟩ := eq_printChar_of_lead ht
      obtain ⟨hrest, huv⟩ := ih hxs.tail hys.tail hmx.tail hmy.tail hus hvs (List.cons.inj h).2
      exact ⟨by simp only [bareList, bare, hrest], huv⟩
    | readChar pos =>
      obtain ⟨pos', rfl⟩ := eq_readChar_of_lead ht
      obtain ⟨hrest, huv⟩ := ih hxs.tail hys.tail hmx.tail hmy.tail hus hvs (List.cons.inj h).2
      exact ⟨by simp only [bareList, bare, hrest], huv⟩
    | loop => cases hs
    | foreign | absent => cases hl
  | loop pos body close rest ihbody ih =>
    intro ys us vs hxs hys hmx hmy hus hvs h
    obtain ⟨t, ys, rfl, ht⟩ := head?_commandsList hys hvs (by decide : Command.enter ≠ .leave)
      (by rw [← h]; rfl)
    obtain ⟨pos', body', close', rfl⟩ := eq_loop_of_lead ht
    obtain ⟨-, hbx, hrx⟩ := (everywhere_loop ..).1 hxs
    obtain ⟨-, hby, hry⟩ := (everywhere_loop ..).1 hys
    simp only [commandsList, commands, List.cons_append, List.append_assoc, List.cons.injEq,
      true_and, List.nil_append] at h
    -- The body ends at the first bracket that closes more than it opens.
    obtain ⟨hbody, h⟩ := ihbody hbx hby hmx.body hmy.body (by simp [Closes]) (by simp [Closes]) h
    obtain ⟨hrest, huv⟩ := ih hrx hry hmx.tail hmy.tail hus hvs (List.cons.inj h).2
    exact ⟨by simp only [bareList, bare, hbody, hrest], huv⟩

/-! ## Building canonical lists -/

/-- The lists that commands determine: sound and merged. -/
def Canonical (body : List Stmt) : Prop :=
  Sound body ∧ Merged body

namespace Canonical

variable {body rest : List Stmt}

protected theorem nil : Canonical [] :=
  ⟨everywhere_nil, .nil, everywhere_nil⟩

/-- Canonical lists of the same commands differ in their positions only. -/
theorem bareList_eq {xs ys : List Stmt} (hx : Canonical xs) (hy : Canonical ys)
    (h : commandsList xs = commandsList ys) : bareList xs = bareList ys := by
  have hnil : Closes [] := by simp [Closes]
  refine (bareList_inj_of_commandsList hx.1 hy.1 hx.2 hy.2 hnil hnil ?_).1
  rw [h]

protected theorem reverse (h : Canonical body) : Canonical body.reverse :=
  ⟨(everywhere_reverse body).2 h.1, (apart_reverse body).2 h.2.1, (everywhere_reverse body).2 h.2.2⟩

/-- A leaf may come next to a list whose near end is no run of the same step. -/
theorem cons_leaf {s : Stmt} (h : Canonical rest) (hs : s.isLoop = false) (hk : s.isKnown)
    (hc : s.isCounted) (hrun : ∀ t ∈ rest.head?, s.sameRun t = false) : Canonical (s :: rest) := by
  have hbody : s.body = [] := by
    cases s with
    | loop => cases hs
    | _ => rfl
  refine ⟨(everywhere_leaf hs rest).2 ⟨⟨hk, hc⟩, h.1⟩, ?_, (everywhere_leaf hs rest).2 ⟨?_, h.2.2⟩⟩
  · exact List.isChain_cons.2 ⟨hrun, h.2.1⟩
  · rw [hbody]
    exact .nil

theorem cons_loop {pos close : Pos} (hbody : Canonical body) (h : Canonical rest) :
    Canonical (.loop pos body close :: rest) := by
  refine ⟨(everywhere_loop ..).2 ⟨⟨rfl, rfl⟩, hbody.1, h.1⟩, ?_,
    (everywhere_loop ..).2 ⟨hbody.2.1, hbody.2.2, h.2.2⟩⟩
  exact List.isChain_cons.2 ⟨fun _ _ => rfl, h.2.1⟩

/-- A run may grow. -/
theorem succ_count {step : Step} {pos : Pos} {n : Nat}
    (h : Canonical (.repeated step pos n :: rest)) :
    Canonical (.repeated step pos (n + 1) :: rest) := by
  have hrest : Canonical rest := ⟨h.1.tail, h.2.tail⟩
  refine hrest.cons_leaf rfl rfl (by simp [isCounted]) fun t ht => ?_
  rw [sameRun_repeated pos pos (n + 1) n]
  exact (List.isChain_cons.1 h.2.1).1 t ht

end Canonical

end Stmt

end TapeCompiler
