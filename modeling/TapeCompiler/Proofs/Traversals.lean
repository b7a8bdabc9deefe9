import TapeCompiler.Program.Outline
import TapeCompiler.Program.Walk
import TapeCompiler.Proofs.Statistics

/-!
# Walks, outlines and statistics agree

Three functions go through a tree, each in its own way: the walk, the outline and the
statistics. What they have in common are the nodes and where these stand. A *place* is
the way to a node from the top, by the index of a statement at each level (`Node.at?`).
In the order of words, which puts a place before the places below it, places are in
preorder.

A walk is a list of visits, each with its place and with what the visitor answered. The
places are found in the tree, in preorder, and they are exactly those of the nodes that
are no gaps and have no ancestor that was rejected (`Covers`). The visitor may have a
state, so its answers depend on the visits before (`Visitor.Goes`).

For a walk that goes everywhere, the outline has one entry per visit, indented by the
length of the place, and the statistics of a program without gaps count the visits:
`Node.traversals_agree`. A visitor that goes by the node alone is a special case
(`Node.walk_covers`).

All of this is shown for lists of statements, by induction on what is inside the first
statement and on the rest (`Stmt.bodyInduction`); a node is then its own visit and the
visits in the list inside it.
-/

namespace TapeCompiler

universe u

variable {σ : Type u}

/-! ## Places -/

namespace Stmt

/-- Whether the statement is a gap. -/
def isAbsent : Stmt → Bool
  | absent => true
  | _ => false

theorem body_leaf {s : Stmt} (hs : s.isLoop = false) : s.body = [] := by
  cases s with
  | loop => cases hs
  | _ => rfl

/-- Induction over a statement list, with the hypothesis for what is inside its first
    statement and for the rest. -/
@[elab_as_elim]
theorem bodyInduction {motive : List Stmt → Prop} (nil : motive [])
    (cons : ∀ (s : Stmt) (rest : List Stmt), motive s.body → motive rest → motive (s :: rest))
    (body : List Stmt) : motive body := by
  induction body using listInduction with
  | nil => exact nil
  | leaf s rest hs ih => exact cons s rest (body_leaf hs ▸ nil) ih
  | loop pos body close rest ihbody ih => exact cons (.loop pos body close) rest ihbody ih

theorem everywhere_body {P : Stmt → Prop} {s : Stmt} {rest : List Stmt}
    (h : Everywhere P (s :: rest)) : Everywhere P s.body := by
  cases s with
  | loop pos body close => exact ((everywhere_loop pos body close rest).1 h).2.1
  | _ => exact everywhere_nil

end Stmt

namespace Node

/-- Whether the node is a gap. -/
def isAbsent : Node → Bool
  | root _ => false
  | stmt s => s.isAbsent

/-- The statements right inside the node. -/
def body : Node → List Stmt
  | root p => p.body
  | stmt s => s.body

theorem eq_absent {n : Node} (hn : n.isAbsent) : n = .stmt .absent := by
  cases n with
  | root => cases hn
  | stmt s =>
    cases s with
    | absent => rfl
    | _ => cases hn

/-- The node at a place. The empty place is that of the node itself. -/
def at? (n : Node) : List Nat → Option Node
  | [] => some n
  | i :: p => n.body[i]?.bind fun s => (stmt s).at? p

/-- What the outline says about a node. -/
def entry : Node → String
  | root p => s!"Root {p.pos.text}"
  | stmt (.repeated step pos count) => s!"{step.name} {pos.text} count={count}"
  | stmt (.loop pos _ close) => s!"Loop {pos.text}..{close.text}"
  | stmt s => s!"{s.name} {s.pos.text}"

end Node

/-- The node at a place of a statement list. -/
def Stmt.listAt? (body : List Stmt) : List Nat → Option Node
  | [] => none
  | i :: p => body[i]?.bind fun s => (Node.stmt s).at? p

/-! ## Visits -/

/-- A visit: where, at which node, and whether the walk goes into it. -/
structure Visit where
  place : List Nat
  node : Node
  entered : Bool

/-- The visit, seen from another place. -/
def Visit.move (f : List Nat → List Nat) (v : Visit) : Visit :=
  { v with place := f v.place }

/-- A visit to the first statement of a list, seen from the list. -/
abbrev Visit.first : Visit → Visit := move (0 :: ·)

/-- A visit to the rest of a list, seen from the list. -/
abbrev Visit.next : Visit → Visit := move (List.modifyHead (· + 1))

/-- Asked at the nodes of the visits, one after the other, the visitor gives the answers
    of the visits and gets from one state to another. -/
inductive Visitor.Goes (visitor : Visitor σ) : σ → List Visit → σ → Prop
  | nil (state : σ) : Goes visitor state [] state
  | cons {state last : σ} {v : Visit} {vs : List Visit} :
      v.entered = (visitor state v.node).2 → Goes visitor (visitor state v.node).1 vs last →
      Goes visitor state (v :: vs) last

/-- No visit to a proper ancestor of the place was a rejection. -/
def Admits (visits : List Visit) (p : List Nat) : Prop :=
  ∀ v ∈ visits, v.place <+: p → v.place ≠ p → v.entered

/-- The visits are those of a traversal of the tree that has its nodes where `find` finds
    them. They are in preorder, each at another place. Visited are the nodes that are no
    gaps and none of whose proper ancestors was rejected, and no others. -/
structure Covers (find : List Nat → Option Node) (visits : List Visit) : Prop where
  found : ∀ v ∈ visits, find v.place = some v.node
  preorder : (visits.map Visit.place).Pairwise (· < ·)
  mem_iff : ∀ p, p ∈ visits.map Visit.place ↔
    (∃ m, find p = some m ∧ m.isAbsent = false) ∧ Admits visits p

/-- The visits in a node that is no gap: the node itself and, if the visitor says so,
    those inside it. -/
def Node.visitsWith (visitor : Visitor σ) (state : σ) (n : Node) (inside : σ → List Visit) :
    List Visit :=
  ⟨[], n, (visitor state n).2⟩ :: if (visitor state n).2 then inside (visitor state n).1 else []

mutual

/-- The visits of a walk through a statement. -/
def Stmt.visits (visitor : Visitor σ) (state : σ) : Stmt → List Visit
  | .absent => []
  | .loop pos body close =>
    (Node.stmt (.loop pos body close)).visitsWith visitor state fun state =>
      Stmt.visitsList visitor state body
  | s => (Node.stmt s).visitsWith visitor state fun _ => []

/-- The visits of a walk through a statement list. -/
def Stmt.visitsList (visitor : Visitor σ) (state : σ) : List Stmt → List Visit
  | [] => []
  | s :: rest => (s.visits visitor state).map Visit.first ++
    (Stmt.visitsList visitor (s.walkFrom visitor state) rest).map Visit.next

end

/-- The visits of a walk through a node. -/
def Node.visits (visitor : Visitor σ) (state : σ) : Node → List Visit
  | .root p => (Node.root p).visitsWith visitor state fun state =>
    Stmt.visitsList visitor state p.body
  | .stmt s => s.visits visitor state

section

variable (visitor : Visitor σ) (state : σ)

theorem Node.visits_eq {n : Node} (hn : n.isAbsent = false) :
    n.visits visitor state =
      n.visitsWith visitor state fun state => Stmt.visitsList visitor state n.body := by
  cases n with
  | root => rfl
  | stmt s =>
    cases s with
    | absent => cases hn
    | _ => rfl

theorem Node.walkFrom_eq {n : Node} (hn : n.isAbsent = false) :
    n.walkFrom visitor state =
      if (visitor state n).2 then Stmt.walkListFrom visitor (visitor state n).1 n.body
      else (visitor state n).1 := by
  cases n with
  | root => rfl
  | stmt s =>
    cases s with
    | absent => cases hn
    | loop => rfl
    | _ => exact (ite_self _).symm

end

/-! ## The visitor's way -/

/-- The visitor that notes the nodes it visits, last first, and goes by the node alone. -/
def Visitor.noting (enters : Node → Bool) : Visitor (List Node) :=
  fun visited m => (m :: visited, enters m)

namespace Visitor.Goes

variable {visitor : Visitor σ} {first mid last : σ} {vs ws : List Visit}

theorem append (hvs : visitor.Goes first vs mid) (hws : visitor.Goes mid ws last) :
    visitor.Goes first (vs ++ ws) last := by
  induction hvs with
  | nil => exact hws
  | cons hanswer _ ih => exact .cons hanswer (ih hws)

/-- The visitor does not see places. -/
theorem move (f : List Nat → List Nat) (h : visitor.Goes first vs last) :
    visitor.Goes first (vs.map (Visit.move f)) last := by
  induction h with
  | nil => exact .nil _
  | cons hanswer _ ih => exact .cons hanswer ih

/-- A visitor that never rejects a node enters all. -/
theorem entered (hall : ∀ state m, (visitor state m).2 = true) (h : visitor.Goes first vs last) :
    ∀ v ∈ vs, v.entered := by
  induction h with
  | nil => exact fun _ hv => absurd hv List.not_mem_nil
  | cons hanswer _ ih => exact List.forall_mem_cons.2 ⟨hanswer.trans (hall _ _), ih⟩

theorem noting {enters : Node → Bool} {first last : List Node}
    (h : (Visitor.noting enters).Goes first vs last) :
    last = (vs.map Visit.node).reverse ++ first ∧ ∀ v ∈ vs, v.entered = enters v.node := by
  induction h with
  | nil => exact ⟨rfl, fun _ hv => absurd hv List.not_mem_nil⟩
  | cons hanswer _ ih =>
    obtain ⟨rfl, hentered⟩ := ih
    refine ⟨?_, List.forall_mem_cons.2 ⟨hanswer, hentered⟩⟩
    simp [Visitor.noting]

end Visitor.Goes

theorem Node.goes_visits {visitor : Visitor σ} (n : Node)
    (h : ∀ state, visitor.Goes state (Stmt.visitsList visitor state n.body)
      (Stmt.walkListFrom visitor state n.body)) (state : σ) :
    visitor.Goes state (n.visits visitor state) (n.walkFrom visitor state) := by
  cases hn : n.isAbsent with
  | false =>
    rw [visits_eq visitor state hn, walkFrom_eq visitor state hn]
    refine .cons rfl ?_
    -- The walk goes into the node, or it has been there.
    split_ifs
    · exact h _
    · exact .nil _
  | true =>
    obtain rfl := eq_absent hn
    exact .nil state

theorem Stmt.goes_visitsList (visitor : Visitor σ) (body : List Stmt) (state : σ) :
    visitor.Goes state (visitsList visitor state body) (walkListFrom visitor state body) := by
  induction body using bodyInduction generalizing state with
  | nil => exact .nil state
  | cons s rest ihbody ih =>
    exact ((Node.goes_visits (.stmt s) ihbody state).move _).append ((ih _).move _)

/-! ## The visited places -/

theorem admits_append {vs ws : List Visit} {p : List Nat} :
    Admits (vs ++ ws) p ↔ Admits vs p ∧ Admits ws p :=
  List.forall_mem_append

/-- Visits that are neither at a place nor above it have nothing to do with it. -/
theorem Admits.of_apart {vs : List Visit} {p : List Nat} (h : ∀ v ∈ vs, ¬v.place <+: p) :
    p ∉ vs.map Visit.place ∧ Admits vs p := by
  refine ⟨fun hp => ?_, fun v hv hp => absurd hp (h v hv)⟩
  obtain ⟨v, hv, rfl⟩ := List.mem_map.1 hp
  exact h v hv List.prefix_rfl

/-- Places may be renamed as long as it stays the same which of them are above one. -/
theorem admits_move {f : List Nat → List Nat} {vs : List Visit} {p : List Nat}
    (hf : ∀ v ∈ vs, (f v.place <+: f p ↔ v.place <+: p) ∧ (f v.place = f p ↔ v.place = p)) :
    (f p ∈ (vs.map (Visit.move f)).map Visit.place ↔ p ∈ vs.map Visit.place) ∧
      (Admits (vs.map (Visit.move f)) (f p) ↔ Admits vs p) := by
  constructor
  · rw [List.map_map, List.mem_map, List.mem_map]
    exact exists_congr fun v => and_congr_right fun hv => (hf v hv).2
  · rw [Admits, List.forall_mem_map, Admits]
    refine forall₂_congr fun v hv => ?_
    exact imp_congr (hf v hv).1 (imp_congr (not_congr (hf v hv).2) Iff.rfl)

namespace Covers

/-- Where there are only gaps nothing is visited. -/
theorem nil {find : List Nat → Option Node} (h : ∀ p m, find p = some m → m.isAbsent) :
    Covers find [] where
  found _ hv := absurd hv List.not_mem_nil
  preorder := .nil
  mem_iff p := by
    refine ⟨fun hp => absurd hp List.not_mem_nil, ?_⟩
    rintro ⟨⟨m, hm, habsent⟩, -⟩
    rw [h p m hm] at habsent
    cases habsent

theorem ne_nil {body : List Stmt} {vs : List Visit} (h : Covers (Stmt.listAt? body) vs)
    {v : Visit} (hv : v ∈ vs) : ∃ i p, v.place = i :: p := by
  have hfound := h.found v hv
  cases hplace : v.place with
  | nil =>
    rw [hplace] at hfound
    cases hfound
  | cons i p => exact ⟨i, p, rfl⟩

/-- A node is visited first, and what is inside it only if it is entered. -/
theorem node {n : Node} (hn : n.isAbsent = false) {vs : List Visit}
    (h : Covers (Stmt.listAt? n.body) vs) (entered : Bool) :
    Covers n.at? (⟨[], n, entered⟩ :: if entered then vs else []) := by
  cases entered with
  | false =>
    -- The node itself is above every other place, so nothing else is admitted.
    refine ⟨?_, ?_, fun p => ?_⟩
    · simp [Node.at?]
    · simp
    · cases p with
      | nil => simp [Node.at?, hn, Admits]
      | cons i p => simp [Admits]
  | true =>
    have hsame (i : Nat) (p : List Nat) : n.at? (i :: p) = Stmt.listAt? n.body (i :: p) := rfl
    refine ⟨?_, ?_, fun p => ?_⟩
    · refine List.forall_mem_cons.2 ⟨rfl, fun v hv => ?_⟩
      obtain ⟨i, p, hplace⟩ := h.ne_nil hv
      rw [← h.found v hv, hplace, hsame]
    · refine List.pairwise_cons.2 ⟨fun p hp => ?_, h.preorder⟩
      obtain ⟨v, hv, rfl⟩ := List.mem_map.1 hp
      obtain ⟨i, p, hplace⟩ := h.ne_nil hv
      rw [hplace]
      exact List.nil_lt_cons i p
    · cases p with
      | nil =>
        refine iff_of_true List.mem_cons_self ⟨⟨n, rfl, hn⟩, fun v _ hp hne => ?_⟩
        exact absurd (List.prefix_nil.1 hp) hne
      | cons i p =>
        have hinside : (i :: p) ∈ [] :: vs.map Visit.place ↔ (i :: p) ∈ vs.map Visit.place := by
          simp
        have hadmits : Admits (⟨[], n, true⟩ :: vs) (i :: p) ↔ Admits vs (i :: p) :=
          List.forall_mem_cons.trans (and_iff_right fun _ _ => rfl)
        rw [if_pos rfl, List.map_cons, hinside, hadmits, hsame]
        exact h.mem_iff (i :: p)

section Cons

variable {s : Stmt} {rest : List Stmt} {vs ws : List Visit}

theorem place_next (hrest : Covers (Stmt.listAt? rest) ws) :
    ∀ w ∈ ws.map Visit.next, ∃ i q, w.place = (i + 1) :: q := by
  refine List.forall_mem_map.2 fun w hw => ?_
  obtain ⟨i, q, hi⟩ := hrest.ne_nil hw
  exact ⟨i, q, congrArg (List.modifyHead (· + 1)) hi⟩

/-- All places in the first statement of a list are before those in the rest. -/
theorem preorder_cons (hs : Covers (Node.stmt s).at? vs) (hrest : Covers (Stmt.listAt? rest) ws) :
    ((vs.map Visit.first ++ ws.map Visit.next).map Visit.place).Pairwise (· < ·) := by
  rw [List.pairwise_map, List.pairwise_append, List.pairwise_map, List.pairwise_map]
  refine ⟨?_, ?_, List.forall_mem_map.2 fun v _ w hw => ?_⟩
  · exact (List.pairwise_map.1 hs.preorder).imp fun hlt =>
      List.cons_lt_cons_iff.2 (.inr ⟨rfl, hlt⟩)
  · refine (List.pairwise_map.1 hrest.preorder).imp_of_mem fun {v w} hv hw hlt => ?_
    obtain ⟨i, p, hi⟩ := hrest.ne_nil hv
    obtain ⟨j, q, hj⟩ := hrest.ne_nil hw
    simpa [Visit.move, hi, hj, List.cons_lt_cons_iff] using hlt
  · obtain ⟨j, q, hq⟩ := hrest.place_next w hw
    rw [hq]
    exact List.cons_lt_cons_iff.2 (.inl (Nat.succ_pos j))

/-- A place in the first statement depends on the visits there. -/
theorem mem_first_iff (hrest : Covers (Stmt.listAt? rest) ws) (p : List Nat) :
    (0 :: p ∈ (vs.map Visit.first ++ ws.map Visit.next).map Visit.place ↔
        p ∈ vs.map Visit.place) ∧
      (Admits (vs.map Visit.first ++ ws.map Visit.next) (0 :: p) ↔ Admits vs p) := by
  obtain ⟨hmem, hadmits⟩ := admits_move (f := (0 :: ·)) (p := p) fun v (_ : v ∈ vs) =>
    ⟨by simp, by simp⟩
  obtain ⟨hnot, hfree⟩ := Admits.of_apart (p := 0 :: p) fun w hw => by
    obtain ⟨i, q, hq⟩ := hrest.place_next w hw
    simp [hq]
  rw [List.map_append, List.mem_append, admits_append, or_iff_left hnot, and_iff_left hfree]
  exact ⟨hmem, hadmits⟩

/-- A place in the rest depends on the visits there. -/
theorem mem_next_iff (hrest : Covers (Stmt.listAt? rest) ws) (i : Nat) (p : List Nat) :
    ((i + 1) :: p ∈ (vs.map Visit.first ++ ws.map Visit.next).map Visit.place ↔
        i :: p ∈ ws.map Visit.place) ∧
      (Admits (vs.map Visit.first ++ ws.map Visit.next) ((i + 1) :: p) ↔ Admits ws (i :: p)) := by
  obtain ⟨hmem, hadmits⟩ := admits_move (f := List.modifyHead (· + 1)) (p := i :: p)
    fun w (hw : w ∈ ws) => by
      obtain ⟨j, q, hq⟩ := hrest.ne_nil hw
      simp [hq]
  obtain ⟨hnot, hfree⟩ := Admits.of_apart (p := (i + 1) :: p)
    fun v (hv : v ∈ vs.map Visit.first) => by
      obtain ⟨v, -, rfl⟩ := List.mem_map.1 hv
      simp [Visit.move]
  rw [List.modifyHead_cons] at hmem hadmits
  rw [List.map_append, List.mem_append, admits_append, or_iff_right hnot, and_iff_right hfree]
  exact ⟨hmem, hadmits⟩

/-- The first statement of a list and what is inside it come before the rest. -/
theorem cons (hs : Covers (Node.stmt s).at? vs) (hrest : Covers (Stmt.listAt? rest) ws) :
    Covers (Stmt.listAt? (s :: rest)) (vs.map Visit.first ++ ws.map Visit.next) where
  found := by
    refine List.forall_mem_append.2 ⟨List.forall_mem_map.2 hs.found, List.forall_mem_map.2 ?_⟩
    intro w hw
    have hfound := hrest.found w hw
    obtain ⟨i, q, hi⟩ := hrest.ne_nil hw
    have hplace : w.next.place = (i + 1) :: q := congrArg (List.modifyHead (· + 1)) hi
    rw [hi] at hfound
    rw [hplace]
    exact hfound
  preorder := preorder_cons hs hrest
  mem_iff p := by
    match p with
    | [] =>
      -- The list itself is no node, and every visit is below it.
      refine iff_of_false (fun hp => ?_) fun ⟨⟨m, hm, _⟩, _⟩ => by cases hm
      obtain ⟨v, hv, hnil⟩ := List.mem_map.1 hp
      rcases List.mem_append.1 hv with hv | hv
      · obtain ⟨v, -, rfl⟩ := List.mem_map.1 hv
        cases hnil
      · obtain ⟨i, q, hq⟩ := hrest.place_next v hv
        cases hq.symm.trans hnil
    | 0 :: p =>
      rw [(mem_first_iff hrest p).1, (mem_first_iff hrest p).2]
      exact hs.mem_iff p
    | (i + 1) :: p =>
      rw [(mem_next_iff hrest i p).1, (mem_next_iff hrest i p).2]
      exact hrest.mem_iff (i :: p)

end Cons

end Covers

theorem Node.covers_visits {visitor : Visitor σ} (n : Node)
    (h : ∀ state, Covers (Stmt.listAt? n.body) (Stmt.visitsList visitor state n.body))
    (state : σ) : Covers n.at? (n.visits visitor state) := by
  cases hn : n.isAbsent with
  | false =>
    rw [visits_eq visitor state hn]
    exact (h _).node hn _
  | true =>
    obtain rfl := eq_absent hn
    refine .nil fun p m hm => ?_
    cases p with
    | nil =>
      cases hm
      rfl
    | cons i p => cases hm

theorem Stmt.covers_visitsList (visitor : Visitor σ) (body : List Stmt) (state : σ) :
    Covers (listAt? body) (visitsList visitor state body) := by
  induction body using bodyInduction generalizing state with
  | nil =>
    refine .nil fun p m hm => ?_
    cases p <;> cases hm
  | cons s rest ihbody ih => exact (Node.covers_visits (.stmt s) ihbody state).cons (ih _)

/-! ## Walks that go everywhere -/

/-- A node that is entered is followed by the visits inside it. -/
theorem Node.visits_of_entered {visitor : Visitor σ} {state : σ} {n : Node}
    (hn : n.isAbsent = false) (hall : ∀ v ∈ n.visits visitor state, v.entered) :
    n.visits visitor state =
      ⟨[], n, true⟩ :: Stmt.visitsList visitor (visitor state n).1 n.body := by
  rw [visits_eq visitor state hn, visitsWith] at hall ⊢
  have hn : (visitor state n).2 = true := hall _ List.mem_cons_self
  rw [hn, if_pos rfl]

theorem Stmt.visits_of_entered {visitor : Visitor σ} {state : σ} {s : Stmt}
    (hs : s.isAbsent = false) (hall : ∀ v ∈ s.visits visitor state, v.entered) :
    s.visits visitor state =
      ⟨[], .stmt s, true⟩ :: visitsList visitor (visitor state (.stmt s)).1 s.body :=
  Node.visits_of_entered (n := .stmt s) hs hall

/-- The line of the outline that belongs to a visit, below `depth` levels. -/
def Visit.line (depth : Nat) (v : Visit) : Outline.Line :=
  ⟨depth + v.place.length, v.node.entry⟩

namespace Stmt

/-- A statement that is no gap has a line of its own, and then the lines inside it. -/
theorem outlineOnto_eq {s : Stmt} (hs : s.isAbsent = false) (depth : Nat)
    (acc : List Outline.Line) : s.outlineOnto depth acc =
      outlinesOnto (depth + 1) (⟨depth, (Node.stmt s).entry⟩ :: acc) s.body := by
  cases s with
  | absent => cases hs
  | _ => rfl

theorem outlineOnto_visits {visitor : Visitor σ} (s : Stmt)
    (h : ∀ {state : σ}, (∀ v ∈ visitsList visitor state s.body, v.entered) →
      ∀ depth acc, outlinesOnto (depth + 1) acc s.body =
        ((visitsList visitor state s.body).map (Visit.line depth)).reverse ++ acc)
    {state : σ} (hall : ∀ v ∈ s.visits visitor state, v.entered) (depth : Nat)
    (acc : List Outline.Line) :
    s.outlineOnto depth acc = ((s.visits visitor state).map (Visit.line depth)).reverse ++ acc := by
  cases hs : s.isAbsent with
  | false =>
    have hvisits := visits_of_entered hs hall
    rw [hvisits] at hall ⊢
    rw [outlineOnto_eq hs, h (List.forall_mem_cons.1 hall).2, List.map_cons, List.reverse_cons,
      List.append_assoc]
    rfl
  | true =>
    obtain rfl : s = .absent := Node.stmt.inj (Node.eq_absent hs)
    rfl

/-- The lines of a list are those of its visits, if the walk goes everywhere. -/
theorem outlinesOnto_visitsList {visitor : Visitor σ} (body : List Stmt) {state : σ}
    (hall : ∀ v ∈ visitsList visitor state body, v.entered) (depth : Nat)
    (acc : List Outline.Line) : outlinesOnto (depth + 1) acc body =
      ((visitsList visitor state body).map (Visit.line depth)).reverse ++ acc := by
  induction body using bodyInduction generalizing state depth acc with
  | nil => rfl
  | cons s rest ihbody ih =>
    obtain ⟨hs, hrest⟩ := List.forall_mem_append.1 hall
    have hbelow : Visit.line depth ∘ Visit.first = Visit.line (depth + 1) := by
      funext v
      simp only [Function.comp_apply, Visit.line, Visit.move, List.length_cons,
        Outline.Line.mk.injEq, and_true]
      omega
    have hbeside : Visit.line depth ∘ Visit.next = Visit.line depth := by
      funext v
      simp [Visit.line, Visit.move]
    rw [outlinesOnto, outlineOnto_visits s ihbody (List.forall_mem_map.1 hs),
      ih (List.forall_mem_map.1 hrest), visitsList, List.map_append, List.map_map, List.map_map,
      hbelow, hbeside, List.reverse_append, List.append_assoc]

theorem loopCountList_add_leafCount (s : Stmt) (rest : List Stmt) :
    loopCountList (s :: rest) + leafCount (s :: rest) =
      loopCountList s.body + leafCount s.body + 1 + (loopCountList rest + leafCount rest) := by
  cases hs : s.isLoop with
  | false =>
    have hinside : loopCountList s.body + leafCount s.body = 0 := by
      rw [body_leaf hs]
      rfl
    rw [hinside, loopCountList, loopCount_leaf hs, leafCount_leaf hs]
    omega
  | true =>
    obtain ⟨pos, body, close, rfl⟩ : ∃ pos body close, s = .loop pos body close := by
      cases s with
      | loop pos body close => exact ⟨pos, body, close, rfl⟩
      | _ => cases hs
    rw [loopCountList, loopCount, leafCount_loop, Stmt.body]
    omega

/-- A list without gaps has as many visits as loops and leaves. -/
theorem length_visitsList {visitor : Visitor σ} {body : List Stmt} {state : σ}
    (hall : ∀ v ∈ visitsList visitor state body, v.entered)
    (hbody : Everywhere (·.isAbsent = false) body) :
    (visitsList visitor state body).length = loopCountList body + leafCount body := by
  induction body using bodyInduction generalizing state with
  | nil => rfl
  | cons s rest ihbody ih =>
    obtain ⟨hs, hrest⟩ := List.forall_mem_append.1 hall
    have hvisits := visits_of_entered hbody.head (List.forall_mem_map.1 hs)
    rw [hvisits] at hs
    rw [visitsList, List.length_append, List.length_map, List.length_map, hvisits, List.length_cons,
      ihbody (List.forall_mem_map.1 (List.forall_mem_cons.1 hs).2) (everywhere_body hbody),
      ih (List.forall_mem_map.1 hrest) hbody.tail, loopCountList_add_leafCount]

end Stmt

namespace Node

/-- The outline has one line per visit, if the walk goes everywhere. -/
theorem outlineLines_eq {visitor : Visitor σ} {state : σ} (n : Node)
    (hall : ∀ v ∈ n.visits visitor state, v.entered) :
    n.outlineLines = (n.visits visitor state).map (Visit.line 0) := by
  cases n with
  | root p =>
    have hvisits := visits_of_entered (n := .root p) rfl hall
    rw [hvisits] at hall ⊢
    rw [outlineLines, Stmt.outlinesOnto_visitsList p.body (List.forall_mem_cons.1 hall).2,
      List.reverse_append, List.reverse_reverse]
    rfl
  | stmt s =>
    rw [outlineLines, Stmt.outlineOnto_visits s (Stmt.outlinesOnto_visitsList s.body) hall,
      List.append_nil, List.reverse_reverse]
    rfl

/-- The nodes of a walk whose visitor goes by the node alone. -/
theorem walk_covers (enters : Node → Bool) (n : Node) :
    ∃ visits, n.walk enters = visits.map Visit.node ∧ Covers n.at? visits ∧
      ∀ v ∈ visits, v.entered = enters v.node := by
  obtain ⟨hlast, hentered⟩ :=
    (goes_visits n (Stmt.goes_visitsList (.noting enters) n.body) []).noting
  refine ⟨_, ?_, covers_visits n (Stmt.covers_visitsList (.noting enters) n.body) [], hentered⟩
  have hwalk : n.walk enters = (n.walkFrom (.noting enters) []).reverse := rfl
  rw [hwalk, hlast, List.append_nil, List.reverse_reverse]

/-- Whatever the visitor does, a walk visits in preorder exactly the nodes that are no
    gaps and none of whose proper ancestors was rejected, each once. If no node was
    rejected, the outline has exactly one entry for each visit, in the same order, indented
    by two blanks for each level; and for a program without gaps the visits are as many
    as the loops and the leaves of the statistics, and one more. -/
theorem traversals_agree (visitor : Visitor σ) (state : σ) (n : Node) :
    ∃ visits, visitor.Goes state visits (n.walkFrom visitor state) ∧ Covers n.at? visits ∧
      ((∀ v ∈ visits, v.entered) →
        n.outline = String.join (visits.map fun v =>
          String.ofList (List.replicate (2 * v.place.length) ' ') ++ v.node.entry ++ "\n") ∧
        ∀ p, n = .root p → Stmt.Everywhere (·.isAbsent = false) p.body →
          visits.length = 1 + n.statistics.loops + n.statistics.leaves) := by
  refine ⟨n.visits visitor state, goes_visits n (Stmt.goes_visitsList visitor n.body) state,
    covers_visits n (Stmt.covers_visitsList visitor n.body) state, fun hall => ⟨?_, ?_⟩⟩
  · rw [outline, outlineLines_eq n hall, List.map_map]
    simp only [Function.comp_def, Visit.line, Outline.Line.text, Nat.zero_add]
  · rintro p rfl hbody
    have hvisits := visits_of_entered (n := .root p) rfl hall
    rw [hvisits] at hall ⊢
    rw [List.length_cons, Stmt.length_visitsList (List.forall_mem_cons.1 hall).2 hbody, statistics,
      Program.statistics_eq]
    exact (Nat.add_comm ..).trans (Nat.add_assoc ..).symm

/-- A visitor that counts its visits goes through a program with a loop, in which there is
    a foreign statement. -/
theorem traversals_agree_counting :
    let kind : ForeignName := ⟨"debug.Breakpoint", by decide, by decide⟩
    let n : Node := .root ⟨{}, [.repeated .increment {} 2,
      .loop {} [.foreign kind {}, .readChar {}] {}]⟩
    let visitor : Visitor Nat := fun k _ => (k + 1, true)
    ∃ visits, visitor.Goes 0 visits 5 ∧ Covers n.at? visits ∧ (∀ v ∈ visits, v.entered) ∧
      n.outline = String.join (visits.map fun v =>
        String.ofList (List.replicate (2 * v.place.length) ' ') ++ v.node.entry ++ "\n") ∧
      visits.length = 1 + 1 + 3 := by
  intro kind n visitor
  obtain ⟨visits, hgoes, hcovers, hagree⟩ := traversals_agree visitor 0 n
  have hall : ∀ v ∈ visits, v.entered := hgoes.entered fun _ _ => rfl
  obtain ⟨houtline, hlength⟩ := hagree hall
  exact ⟨visits, hgoes, hcovers, hall, houtline, hlength _ rfl (by decide)⟩

end Node

end TapeCompiler
