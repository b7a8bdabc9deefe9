import Mathlib.Data.List.Forall2
import Mathlib.Tactic.IntervalCases
import TapeCompiler.Proofs.Parsing

/-!
# Parsing token streams

A token stream need not come from a text. It is any list of numbers with positions, and
it can stop without an end of the input, or hold numbers that mean nothing. A parse reads
up to the first token that *ends* it (`RawToken.EndsAt`): the end of the input, a number
that means nothing, or a closing bracket where no loop is open.

`Frames.Opens` says what the open lists are after the tokens read so far. A token that
does not end the parse keeps that (`Opens.take`), so the parser comes to the first token
that ends it (`Opens.run`), and what becomes of the parse is read off there
(`Frames.take_zero`, `Frames.take_unknown`, `Frames.take_close`). The parser then stays on
that token, so parsing again reads nothing (`Parser.settles_of_done`).

The main result is `Parser.parse_stream`.
-/

namespace TapeCompiler

/-! ## Token streams -/

/-- A token as a stream gives it: a number, and where it stands. -/
structure RawToken where
  number : UInt64
  pos : Pos
  deriving DecidableEq, Repr

namespace RawToken

/-- The token with its number read. -/
def located (t : RawToken) : Located :=
  ⟨.ofCode t.number, t.pos⟩

/-- The command that the token stands for, if any. -/
def command? (t : RawToken) : Option Command :=
  match Token.ofCode t.number with
  | .command c => some c
  | _ => none

/-- The commands of a stream. -/
def commands (toks : List RawToken) : List Command :=
  toks.filterMap command?

/-- As many loops are opened as closed. -/
def Level (toks : List RawToken) : Prop :=
  toks.countP (·.number = 7) = toks.countP (·.number = 8)

/-- The token ends a parse that has read the tokens `before` it: it is the end of the input,
    means nothing, or closes a loop that was not opened. -/
def Ends (before : List RawToken) (t : RawToken) : Prop :=
  t.number = 0 ∨ 8 < t.number ∨ t.number = 8 ∧ Level before

/-- The token at `i` ends a parse of the stream. -/
def EndsAt (toks : List RawToken) (i : Nat) : Prop :=
  ∃ t ∈ toks[i]?, Ends (toks.take i) t

/-- The token at `i` opens a loop that is never closed. -/
def Unclosed (toks : List RawToken) (i : Nat) : Prop :=
  (∃ t, toks[i]? = some t ∧ t.number = 7) ∧
    ∀ n, ((toks.drop (i + 1)).take n).countP (·.number = 8) ≤
      ((toks.drop (i + 1)).take n).countP (·.number = 7)

instance (toks : List RawToken) : Decidable (Level toks) :=
  inferInstanceAs (Decidable (_ = _))

instance (before : List RawToken) (t : RawToken) : Decidable (Ends before t) :=
  inferInstanceAs (Decidable (_ ∨ _ ∨ _ ∧ _))

instance (toks : List RawToken) (i : Nat) : Decidable (EndsAt toks i) :=
  inferInstanceAs (Decidable (∃ t ∈ toks[i]?, Ends (toks.take i) t))

/-- The weight of a token as a bracket. -/
def weight (t : RawToken) : Int :=
  if t.number = 7 then 1 else if t.number = 8 then -1 else 0

variable {toks before : List RawToken} {t : RawToken} {i : Nat}

theorem commands_concat {c : Command} (h : t.command? = some c) :
    commands (before ++ [t]) = commands before ++ [c] := by
  rw [commands, List.filterMap_append, List.filterMap_cons_some h, List.filterMap_nil]
  rfl

theorem depth_eq (toks : List RawToken) : Brackets.depth weight toks =
    toks.countP (·.number = 7) - toks.countP (·.number = 8) := by
  induction toks with
  | nil => rfl
  | cons t toks ih =>
    rw [Brackets.depth_cons, ih, weight, List.countP_cons, List.countP_cons]
    split_ifs <;> simp_all <;> omega

theorem level_iff : Level toks ↔ Brackets.depth weight toks = 0 := by
  rw [depth_eq, Level]
  omega

theorem weight_eq_one : weight t = 1 ↔ t.number = 7 := by
  unfold weight
  split_ifs <;> simp_all

theorem unclosed_iff : Unclosed toks i ↔ Brackets.Unmatched weight toks i := by
  simp only [Unclosed, Brackets.Unmatched, Brackets.NeverBelow, weight_eq_one, depth_eq,
    Int.sub_nonneg, Int.ofNat_le]

end RawToken

/-- A number is the end of the input, means nothing, or is a command. -/
theorem Token.ofCode_cases (n : UInt64) :
    (n = 0 ∧ ofCode n = .eof) ∨ (8 < n ∧ ofCode n = .unknown n) ∨
    ∃ c, ofCode n = .command c ∧ n ≠ 0 ∧ ¬8 < n ∧ (c = .enter ↔ n = 7) ∧ (c = .leave ↔ n = 8) := by
  by_cases h : 8 < n
  · have hne : ∀ k : UInt64, k ≤ 8 → n ≠ k := fun k hk heq =>
      absurd (UInt64.lt_of_lt_of_le (heq ▸ h) hk) (UInt64.lt_irrefl 8)
    refine .inr (.inl ⟨h, ?_⟩)
    simp only [ofCode, hne 0 (by decide), hne 1 (by decide), hne 2 (by decide), hne 3 (by decide),
      hne 4 (by decide), hne 5 (by decide), hne 6 (by decide), hne 7 (by decide), hne 8 (by decide),
      if_false]
  · have hle : n.toNat ≤ 8 := UInt64.le_iff_toNat_le.1 (UInt64.not_lt.1 h)
    have hn : n = UInt64.ofNat n.toNat := UInt64.ofNat_toNat.symm
    interval_cases n.toNat
    · exact .inl ⟨hn, by rw [hn]; rfl⟩
    all_goals
      subst hn
      exact .inr (.inr ⟨_, rfl, by decide, by decide, by decide, by decide⟩)

namespace RawToken

/-- A token is the end of the input, means nothing, or is a command. -/
theorem token_cases (t : RawToken) :
    (t.number = 0 ∧ t.located = ⟨.eof, t.pos⟩) ∨
    (8 < t.number ∧ t.located = ⟨.unknown t.number, t.pos⟩) ∨
    ∃ c, t.located = ⟨.command c, t.pos⟩ ∧ t.command? = some c ∧ t.number ≠ 0 ∧ ¬8 < t.number ∧
      (c = .enter ↔ t.number = 7) ∧ (c = .leave ↔ t.number = 8) := by
  rw [located, command?]
  rcases Token.ofCode_cases t.number with ⟨hzero, htoken⟩ | ⟨hlarge, htoken⟩ | ⟨c, htoken, hrest⟩
  · exact .inl ⟨hzero, by rw [htoken]⟩
  · exact .inr (.inl ⟨hlarge, by rw [htoken]⟩)
  · exact .inr (.inr ⟨c, by rw [htoken], by rw [htoken], hrest⟩)

end RawToken

/-! ## What the open lists hold -/

namespace Parser.Frames

open RawToken

/-! ### Commands -/

variable (f : Frames)

theorem commands_push (s : Stmt) : (f.push s).commands = f.commands ++ s.commands := by
  rw [commands, commands, push, List.reverse_cons, Stmt.commandsList_append, List.append_assoc,
    Stmt.commandsList, Stmt.commandsList, List.append_nil]

theorem loops_pushStep (step : Step) (pos : Pos) : (f.pushStep step pos).loops = f.loops := by
  unfold pushStep
  split
  · split <;> rfl
  · rfl

theorem commands_pushStep (step : Step) (pos : Pos) :
    (f.pushStep step pos).commands = f.commands ++ [step.command] := by
  unfold pushStep
  split
  · next step' pos' n before hbody =>
    split_ifs with heq
    · -- The run before it grows by one.
      subst heq
      rw [commands, commands, hbody]
      simp [Stmt.commandsList, Stmt.commands, List.replicate_succ']
    · exact f.commands_push _
  · exact f.commands_push _

theorem commands_enter (pos : Pos) : (f.enter pos).commands = f.commands ++ [.enter] := by
  simp [commands, enter, commandsBefore, Stmt.commandsList]

theorem commands_leave {f : Frames} {l : OpenLoop} {loops : List OpenLoop}
    (hl : f.loops = l :: loops) (pos : Pos) :
    commands { loops, body := .loop l.pos f.body.reverse pos :: l.before } =
      f.commands ++ [.leave] := by
  rw [commands, commands, hl]
  simp [commandsBefore, Stmt.commandsList, Stmt.commands]

/-! ### Loops -/

/-- The open lists are those of a stream that starts with the tokens `before`: they stand
    for its commands, and their loops are the brackets that are open, each where its token
    is. -/
structure Opens (before : List RawToken) (f : Frames) : Prop where
  commands : f.commands = RawToken.commands before
  opened : ∃ is, Brackets.Opened weight is before ∧
    List.Forall₂ (fun l i => ∃ t, before[i]? = some t ∧ t.pos = l.pos) f.loops is

variable {f : Frames} {before : List RawToken} {t : RawToken}

theorem opens_nil : Opens [] {} where
  commands := rfl
  opened := ⟨[], .level Brackets.balanced_nil, .nil⟩

/-- Tokens stay where they are when the stream goes on. -/
theorem located_append {loops : List OpenLoop} {is : List Nat}
    (h : List.Forall₂ (fun l i => ∃ t, before[i]? = some t ∧ t.pos = l.pos) loops is)
    (more : List RawToken) :
    List.Forall₂ (fun l i => ∃ t, (before ++ more)[i]? = some t ∧ t.pos = l.pos) loops is := by
  refine h.imp fun l i => ?_
  rintro ⟨t, ht, hpos⟩
  exact ⟨t, by rwa [List.getElem?_append_left (List.getElem?_eq_some_iff.1 ht).1], hpos⟩

/-- As many brackets have been closed as opened exactly if no loop is open. -/
theorem Opens.level_iff (h : f.Opens before) : Level before ↔ f.loops = [] := by
  obtain ⟨is, hopened, hloops⟩ := h.opened
  rw [RawToken.level_iff, hopened.depth_eq, ← List.length_eq_zero_iff, hloops.length_eq]
  omega

theorem Opens.plain {f' : Frames} {c : Command} (h : f.Opens before) (hc : t.command? = some c)
    (hw : weight t = 0) (hloops : f'.loops = f.loops)
    (hcommands : f'.commands = f.commands ++ [c]) :
    f'.Opens (before ++ [t]) where
  commands := by rw [hcommands, h.commands, commands_concat hc]
  opened := by
    obtain ⟨is, hopened, his⟩ := h.opened
    exact ⟨is, hopened.snoc_plain hw, hloops ▸ located_append his [t]⟩

theorem Opens.enter (h : f.Opens before) (hc : t.command? = some .enter) (ht : t.number = 7) :
    (f.enter t.pos).Opens (before ++ [t]) where
  commands := by rw [f.commands_enter, h.commands, commands_concat hc]
  opened := by
    obtain ⟨is, hopened, his⟩ := h.opened
    refine ⟨before.length :: is, hopened.snoc_open (weight_eq_one.2 ht),
      .cons ?_ (located_append his [t])⟩
    exact ⟨t, by simp, rfl⟩

theorem Opens.leave {l : OpenLoop} {loops : List OpenLoop} (h : f.Opens before)
    (hc : t.command? = some .leave) (ht : t.number = 8) (hl : f.loops = l :: loops) :
    Opens (before ++ [t]) { loops, body := .loop l.pos f.body.reverse t.pos :: l.before } where
  commands := by rw [commands_leave hl, h.commands, commands_concat hc]
  opened := by
    obtain ⟨is, hopened, his⟩ := h.opened
    rw [hl] at his
    cases his with
    | @cons _ i _ is hfirst his =>
      have hw : weight t = -1 := by rw [weight, ht]; rfl
      exact ⟨is, hopened.snoc_close hw, located_append his [t]⟩

/-- A token that does not end the parse keeps the invariant. -/
theorem Opens.take (h : f.Opens before) (hend : ¬Ends before t) :
    ∃ f', f.take t.located = .more f' ∧ f'.Opens (before ++ [t]) := by
  rcases t.token_cases with ⟨hzero, -⟩ | ⟨hlarge, -⟩ | ⟨c, ht, hc, -, -, henter, hleave⟩
  · exact absurd (.inl hzero) hend
  · exact absurd (.inr (.inl hlarge)) hend
  · have hplain : c ≠ .enter → c ≠ .leave → weight t = 0 := by
      intro hne hne'
      rw [weight, if_neg (mt henter.2 hne), if_neg (mt hleave.2 hne')]
    rw [ht]
    cases c with
    | right | left | add | sub =>
      exact ⟨_, rfl, h.plain hc (hplain nofun nofun) (f.loops_pushStep ..) (f.commands_pushStep ..)⟩
    | put | get => exact ⟨_, rfl, h.plain hc (hplain nofun nofun) rfl (f.commands_push _)⟩
    | enter => exact ⟨_, rfl, h.enter hc (henter.1 rfl)⟩
    | leave =>
      have hnumber := hleave.1 rfl
      cases hl : f.loops with
      | nil => exact absurd (.inr (.inr ⟨hnumber, h.level_iff.2 hl⟩)) hend
      | cons l loops => exact ⟨_, by simp only [Frames.take, hl], h.leave hc hnumber hl⟩

/-! ### The token that ends a parse -/

theorem take_unknown (h : 8 < t.number) :
    f.take t.located = .done (.error (.fault (.unexpectedToken ⟨.unknown t.number, t.pos⟩))) := by
  rcases t.token_cases with ⟨hzero, -⟩ | ⟨-, ht⟩ | ⟨c, -, -, -, hsmall, -⟩
  · rw [hzero] at h
    exact absurd h (by decide)
  · rw [ht]
    rfl
  · exact absurd h hsmall

theorem take_zero (h : t.number = 0) : f.take t.located = .done f.finish := by
  rcases t.token_cases with ⟨-, ht⟩ | ⟨hlarge, -⟩ | ⟨c, -, -, hne, -⟩
  · rw [ht, take_eof]
  · rw [h] at hlarge
    exact absurd hlarge (by decide)
  · exact absurd h hne

theorem take_close (hl : f.loops = []) (h : t.number = 8) :
    f.take t.located = .done (.error (.malformed (.unexpectedClose t.pos))) := by
  rcases t.token_cases with ⟨hzero, -⟩ | ⟨hlarge, -⟩ | ⟨c, ht, -, -, -, -, hleave⟩
  · cases h.symm.trans hzero
  · rw [h] at hlarge
    exact absurd hlarge (by decide)
  · obtain rfl := hleave.2 h
    rw [ht]
    simp only [Frames.take, hl]

/-- The innermost open loop is the last bracket that is never closed. -/
theorem Opens.innermost {l : OpenLoop} {loops : List OpenLoop} (h : f.Opens before)
    (hl : f.loops = l :: loops) : ∃ i u, before[i]? = some u ∧ u.pos = l.pos ∧ Unclosed before i ∧
      ∀ j, Unclosed before j → j ≤ i := by
  obtain ⟨is, hopened, his⟩ := h.opened
  rw [hl] at his
  cases his with
  | @cons _ i _ is hfirst his =>
    obtain ⟨u, hu, hpos⟩ := hfirst
    obtain ⟨hlast, hmax⟩ := hopened.lastUnmatched
    exact ⟨i, u, hu, hpos, unclosed_iff.2 hlast, fun j hj => hmax j (unclosed_iff.1 hj)⟩

/-! ### A whole parse -/

/-- The parser reads on over tokens that do not end the parse. -/
theorem Opens.run {mid after : List RawToken} {u : RawToken} {c : Located} {rest : List Located}
    (h : f.Opens before)
    (hmid : ∀ xs x ys, mid = xs ++ x :: ys → ¬Ends (before ++ xs) x)
    (hrest : (mid ++ u :: after).map located = c :: rest) :
    ∃ f' : Frames, f'.Opens (before ++ mid) ∧
      Parser.run f c rest = Parser.run f' u.located (after.map located) := by
  induction mid generalizing before f c rest with
  | nil =>
    cases hrest
    exact ⟨f, by rwa [List.append_nil], rfl⟩
  | cons t mid ih =>
    rw [List.cons_append, List.map_cons, List.cons.injEq] at hrest
    obtain ⟨rfl, rfl⟩ := hrest
    -- There is a next token, at the latest the one that ends the parse.
    obtain ⟨c', rest', hnext⟩ : ∃ c' rest', (mid ++ u :: after).map located = c' :: rest' := by
      cases mid <;> exact ⟨_, _, rfl⟩
    obtain ⟨f₁, htake, hf₁⟩ := h.take (by simpa using hmid [] t mid rfl)
    obtain ⟨f', hf', hrun⟩ := ih hf₁ (fun xs x ys hxs => by
      simpa using hmid (t :: xs) x ys (by rw [hxs]; rfl)) hnext
    refine ⟨f', by simpa using hf', ?_⟩
    rw [hnext, Parser.run, htake]
    exact hrun

end Parser.Frames

namespace Parser

/-! ## Parsing again -/

theorem run_done {f : Frames} {c : Located} {body : Except ParseError (List Stmt)}
    (h : f.take c = .done body) (rest : List Located) : run f c rest = ⟨body, c, rest⟩ := by
  cases rest <;> simp only [run, h]

/-- What a parse comes to, and where it leaves the parser. -/
theorem parse_eq_run {p : Parser} (h : p.failure? = none) :
    let r := run {} p.current p.rest
    p.parse.1 = r.body.map (Program.mk p.current.pos) ∧ p.parse.2.current = r.current ∧
      p.parse.2.rest = r.rest ∧ p.parse.2.failure? = none := by
  intro r
  have hr : run {} p.current p.rest = r := rfl
  unfold parse
  simp only [h, hr]
  rcases hbody : r.body with (cause | e | f) | body <;> exact ⟨rfl, rfl, rfl, rfl⟩

/-- However often it parses, the parser stands on the token `t` before the tokens `unread`,
    and the result is `again`. -/
def Settles (p : Parser) (t : Located) (unread : List Located) (again : Except ParseError Program) :
    Prop :=
  ∀ n, let q := (fun q => q.parse.2)^[n] p
    q.current = t ∧ q.rest = unread ∧ q.parse.1 = again

/-- A token that ends a parse before it has read anything ends every later one. -/
theorem settles_of_done {p : Parser} {body : Except ParseError (List Stmt)} (h : p.failure? = none)
    (htake : Frames.take {} p.current = .done body) :
    p.Settles p.current p.rest (body.map (Program.mk p.current.pos)) := by
  intro n
  induction n generalizing p with
  | zero =>
    obtain ⟨hresult, -⟩ := parse_eq_run h
    rw [run_done htake] at hresult
    exact ⟨rfl, rfl, hresult⟩
  | succ n ih =>
    obtain ⟨-, hcurrent, hrest, hfailure⟩ := parse_eq_run h
    rw [run_done htake] at hcurrent hrest
    have hlater := ih hfailure (by rwa [hcurrent])
    rwa [hcurrent, hrest] at hlater

/-! ## The outcome of a parse -/

section Outcome

open RawToken

variable {mid after : List RawToken} {u : RawToken} {p : Parser}

/-- The parser comes to every token before which no other ends the parse. -/
theorem exists_run_eq (hp : ofTokens ((mid ++ u :: after).map located) = .ok p)
    (hmid : ∀ j < mid.length, ¬EndsAt (mid ++ u :: after) j) :
    ∃ f : Frames, f.Opens mid ∧ p.failure? = none ∧
      run {} p.current p.rest = run f u.located (after.map located) := by
  obtain ⟨c, rest, hstream⟩ : ∃ c rest, (mid ++ u :: after).map located = c :: rest := by
    cases mid <;> exact ⟨_, _, rfl⟩
  have hnone : ∀ xs x ys, mid = xs ++ x :: ys → ¬Ends ([] ++ xs) x := by
    rintro xs x ys rfl hends
    exact hmid xs.length (by simp) ⟨x, by simp, by simpa using hends⟩
  obtain ⟨f, hf, hrun⟩ := Frames.opens_nil.run hnone hstream
  rw [hstream] at hp
  cases hp
  exact ⟨f, hf, rfl, hrun⟩

/-- At the first token that ends it, the parse is over, and the parser stays there. -/
theorem parse_ends (hp : ofTokens ((mid ++ u :: after).map located) = .ok p)
    (hmid : ∀ j < mid.length, ¬EndsAt (mid ++ u :: after) j) :
    ∃ f : Frames, f.Opens mid ∧ ∀ body, f.take u.located = .done body →
      p.parse.1 = body.map (Program.mk p.current.pos) ∧
      ∀ again, Frames.take {} u.located = .done again →
        p.parse.2.Settles u.located (after.map located) (again.map (Program.mk u.pos)) := by
  obtain ⟨f, hf, hfailure, hrun⟩ := exists_run_eq hp hmid
  refine ⟨f, hf, fun body hbody => ?_⟩
  obtain ⟨hresult, hcurrent, hrest, hfailure'⟩ := parse_eq_run hfailure
  rw [hrun, run_done hbody] at hresult hcurrent hrest
  refine ⟨hresult, fun again hagain => ?_⟩
  have hsettles := settles_of_done hfailure' (by rwa [hcurrent])
  rwa [hcurrent, hrest] at hsettles

/-- A stream in which no token ends the parse is too short. -/
theorem parse_exhausted {toks : List RawToken} (hp : ofTokens (toks.map located) = .ok p)
    (hends : ∀ i, ¬EndsAt toks i) : p.parse.1 = .error (.fault .exhausted) := by
  rcases List.eq_nil_or_concat toks with rfl | ⟨mid, u, rfl⟩
  · cases hp
  · rw [List.concat_eq_append] at hp hends
    obtain ⟨f, hf, hfailure, hrun⟩ := exists_run_eq hp fun j _ => hends j
    have hlast : ¬Ends mid u := fun h => hends mid.length ⟨u, by simp, by simpa using h⟩
    obtain ⟨f', htake, -⟩ := hf.take hlast
    obtain ⟨hresult, -⟩ := parse_eq_run hfailure
    rw [hrun, List.map_nil, run, htake] at hresult
    exact hresult

end Outcome

/-- The parse breaks off because of a fault of the stream, which is told in these words. -/
def BreaksOff (result : Except ParseError Program) (words : String) : Prop :=
  ∃ fault : StreamFault, result = .error (.fault fault) ∧ fault.message = words

open RawToken in
/-- What comes of parsing any stream of numbers. An empty stream has no parser. Otherwise
    the first token that ends the parse decides:

      * without such a token, the stream is exhausted;
      * a number that means nothing is a fault;
      * a closing bracket where no loop is open is an error at its place;
      * at the end of the input there is a tree of the commands before it if as many loops
        were closed as opened, and else the last opening bracket that is never closed is
        the error.

    In the last two cases all tokens up to this one have been read and no others. Later
    parses read nothing: the closing bracket is the same error again, and from the end of
    the input on there is an empty tree. -/
theorem parse_stream (toks : List RawToken) :
    (toks = [] → ofTokens (toks.map located) = .error .exhausted ∧
      StreamFault.exhausted.message = "syntax: ran out of tokens") ∧
    (toks ≠ [] → ∃ p, ofTokens (toks.map located) = .ok p ∧
      ((∀ i, ¬EndsAt toks i) → BreaksOff p.parse.1 "syntax: ran out of tokens") ∧
      ∀ i t, toks[i]? = some t → EndsAt toks i → (∀ j < i, ¬EndsAt toks j) →
        let unread := (toks.drop (i + 1)).map located
        (8 < t.number → BreaksOff p.parse.1
          s!"syntax: {t.pos.text}: unexpected token {(Token.unknown t.number).text}") ∧
        (t.number = 8 → p.parse.1 = .error (.malformed (.unexpectedClose t.pos)) ∧
          p.parse.2.Settles t.located unread (.error (.malformed (.unexpectedClose t.pos)))) ∧
        (t.number = 0 → p.parse.2.Settles t.located unread (.ok ⟨t.pos, []⟩) ∧
          (Level (toks.take i) → ∃ program, p.parse.1 = .ok program ∧
            Stmt.commandsList program.body = RawToken.commands (toks.take i)) ∧
          (¬Level (toks.take i) → ∃ j u, toks[j]? = some u ∧ Unclosed (toks.take i) j ∧
            (∀ k, Unclosed (toks.take i) k → k ≤ j) ∧
            p.parse.1 = .error (.malformed (.unterminatedLoop u.pos))))) := by
  refine ⟨?_, fun hne => ?_⟩
  · rintro rfl
    exact ⟨rfl, rfl⟩
  obtain ⟨p, hp⟩ : ∃ p, ofTokens (toks.map located) = .ok p := by
    cases toks with
    | nil => exact absurd rfl hne
    | cons t toks => exact ⟨_, rfl⟩
  refine ⟨p, hp, fun hends => ⟨_, parse_exhausted hp hends, rfl⟩, ?_⟩
  intro i t ht hends hfirst unread
  -- The stream is cut at the first token that ends the parse.
  obtain ⟨hi, hget⟩ := List.getElem?_eq_some_iff.1 ht
  have hsplit : toks = toks.take i ++ t :: toks.drop (i + 1) := by
    rw [← hget, List.getElem_cons_drop, List.take_append_drop]
  have hlength : (toks.take i).length = i := List.length_take_of_le (Nat.le_of_lt hi)
  have hp' : ofTokens ((toks.take i ++ t :: toks.drop (i + 1)).map located) = .ok p := hsplit ▸ hp
  obtain ⟨f, hf, hparse⟩ := parse_ends hp' (by rwa [hlength, ← hsplit])
  refine ⟨fun hlarge => ?_, fun hclose => ?_, fun hzero => ?_⟩
  · exact ⟨_, (hparse _ (Frames.take_unknown hlarge)).1, rfl⟩
  · have hlevel : Level (toks.take i) := by
      obtain ⟨t', ht', hends⟩ := hends
      cases ht.symm.trans ht'
      rcases hends with hzero | hlarge | ⟨-, hlevel⟩
      · cases hclose.symm.trans hzero
      · rw [hclose] at hlarge
        exact absurd hlarge (by decide)
      · exact hlevel
    obtain ⟨hresult, hsettles⟩ := hparse _ (Frames.take_close (hf.level_iff.1 hlevel) hclose)
    exact ⟨hresult, hsettles _ (Frames.take_close rfl hclose)⟩
  · obtain ⟨hresult, hsettles⟩ := hparse _ (Frames.take_zero hzero)
    refine ⟨hsettles _ (Frames.take_zero hzero), fun hlevel => ?_, fun hlevel => ?_⟩
    · have hl := hf.level_iff.1 hlevel
      rw [Frames.finish, hl] at hresult
      refine ⟨_, hresult, ?_⟩
      rw [← hf.commands, Frames.commands, hl]
      rfl
    · cases hl : f.loops with
      | nil => exact absurd (hf.level_iff.2 hl) hlevel
      | cons l loops =>
        obtain ⟨j, u, hu, hpos, hunclosed, hmax⟩ := hf.innermost hl
        rw [Frames.finish, hl] at hresult
        refine ⟨j, u, ?_, hunclosed, hmax, hpos ▸ hresult⟩
        rw [hsplit, List.getElem?_append_left (List.getElem?_eq_some_iff.1 hu).1, hu]

open RawToken in
/-- The numbers of `[]`, an opening bracket, `+`, the end of the input and `>`: the second
    loop is open at the end, and the last token is never read. -/
theorem parse_stream_open :
    let toks : List RawToken := [⟨7, { line := 1, col := 1 }⟩, ⟨8, { line := 1, col := 2 }⟩,
      ⟨7, { line := 1, col := 3 }⟩, ⟨3, { line := 1, col := 4 }⟩, ⟨0, { line := 1, col := 5 }⟩,
      ⟨1, { line := 1, col := 6 }⟩]
    EndsAt toks 4 ∧ (∀ j < 4, ¬EndsAt toks j) ∧ ¬Level (toks.take 4) ∧
      ∃ p, ofTokens (toks.map located) = .ok p ∧
        (∃ j u, toks[j]? = some u ∧ Unclosed (toks.take 4) j ∧
          (∀ k, Unclosed (toks.take 4) k → k ≤ j) ∧
          p.parse.1 = .error (.malformed (.unterminatedLoop u.pos))) ∧
        p.parse.2.Settles ⟨.eof, { line := 1, col := 5 }⟩
          [⟨.command .right, { line := 1, col := 6 }⟩] (.ok ⟨{ line := 1, col := 5 }, []⟩) := by
  intro toks
  have hends : EndsAt toks 4 := by decide
  have hfirst : ∀ j < 4, ¬EndsAt toks j := by decide
  have hlevel : ¬Level (toks.take 4) := by decide
  obtain ⟨p, hp, -, houtcome⟩ := (parse_stream toks).2 (List.cons_ne_nil _ _)
  obtain ⟨-, -, hzero⟩ := houtcome 4 ⟨0, { line := 1, col := 5 }⟩ rfl hends hfirst
  obtain ⟨hsettles, -, hopen⟩ := hzero rfl
  exact ⟨hends, hfirst, hlevel, p, hp, hopen hlevel, hsettles⟩

end Parser

end TapeCompiler
