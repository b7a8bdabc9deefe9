import TapeCompiler.Proofs.TokenStream

/-!
# Looking ahead

A scanner answers five kinds of calls (`Scanner.call`), in any order. Of its state only three
things can be seen: the tokens that are left, the token handed out last, and why the source
could not be read. They make up a `Script`, a plain list of tokens with a mark in it. Only
`next` moves the mark; to look ahead is to read the token behind it.

  * `Scanner.record_eq`: a scanner answers as its script does, however far ahead its reader
    has gone.
  * `Scanner.record_without_peek`: looking ahead changes no answer to any other call, it tells
    the token that comes next, and after the end of the input nothing changes any more.
-/

namespace TapeCompiler

namespace Scanner

/-- The calls that a scanner answers. -/
inductive Call
  | next
  | peek
  | token
  | pos
  | failure
  deriving DecidableEq, Repr

/-- What a call can answer. -/
inductive Answer
  | more (handedOut : Bool)
  | token (t : Token)
  | pos (p : Pos)
  | failure (cause : Option String)
  deriving DecidableEq, Repr

/-- The answer to a call, and the scanner after it. -/
def call (s : Scanner) : Call → Answer × Scanner
  | .next => (.more s.next.1, s.next.2)
  | .peek => (.token s.peek.1, s.peek.2)
  | .token => (.token s.current.token, s)
  | .pos => (.pos s.current.pos, s)
  | .failure => (.failure s.failure?, s)

/-- The scanner after some calls. -/
def after (s : Scanner) : List Call → Scanner
  | [] => s
  | c :: calls => (s.call c).2.after calls

/-- Some calls, each with the answer to it. -/
def record (s : Scanner) : List Call → List (Call × Answer)
  | [] => []
  | c :: calls => (c, (s.call c).1) :: (s.call c).2.record calls

/-- One of the calls hands out the end of the input. -/
def HandsOutEnd (s : Scanner) (calls : List Call) : Prop :=
  ∃ before later s', calls = before ++ .next :: later ∧ (s.after before).next = (true, s') ∧
    s'.current.token = .eof

theorem after_append (s : Scanner) (calls later : List Call) :
    s.after (calls ++ later) = (s.after calls).after later := by
  induction calls generalizing s with
  | nil => rfl
  | cons c calls ih => exact ih _

end Scanner

/-! ## A list with a mark -/

/-- Tokens that are handed out in order. -/
structure Script where
  /-- The tokens behind the mark. -/
  left : List Located
  /-- The token in front of the mark. -/
  current : Located
  failure? : Option String

namespace Script

open Scanner (Call Answer)

/-- What a call answers. -/
def answer (p : Script) : Call → Answer
  | .next => .more (p.left ≠ [])
  | .peek => .token ((p.left.head?.map Located.token).getD .eof)
  | .token => .token p.current.token
  | .pos => .pos p.current.pos
  | .failure => .failure p.failure?

/-- What a call does: `next` moves the mark behind one more token. -/
def step (p : Script) : Call → Script
  | .next =>
    match p.left with
    | [] => p
    | t :: left => { p with left, current := t }
  | _ => p

/-- Some calls, each with the answer to it. -/
def record (p : Script) : List Call → List (Call × Answer)
  | [] => []
  | c :: calls => (c, p.answer c) :: (p.step c).record calls

/-- The script after some calls. -/
def after (p : Script) (calls : List Call) : Script :=
  calls.foldl step p

theorem record_filter_peek (p : Script) (calls : List Call) :
    (p.record calls).filter (fun r => r.1 ≠ .peek) = p.record (calls.filter (· ≠ .peek)) := by
  induction calls generalizing p with
  | nil => rfl
  | cons c calls ih =>
    by_cases hc : c = .peek
    · subst hc
      exact ih p
    · rw [record, List.filter_cons_of_pos (by simpa using hc),
        List.filter_cons_of_pos (by simpa using hc), record, ih]

/-- The mark stays where it is until `next` is called. -/
theorem after_of_not_mem (p : Script) {calls : List Call} (h : .next ∉ calls) :
    p.after calls = p := by
  induction calls with
  | nil => rfl
  | cons c calls ih =>
    rw [List.mem_cons, not_or] at h
    have hstep : p.step c = p := by
      cases c with
      | next => exact absurd rfl h.1
      | _ => rfl
    rw [after, List.foldl_cons, hstep]
    exact ih h.2

/-- At the end of the list the mark stays where it is. -/
theorem after_of_left_eq_nil {p : Script} (h : p.left = []) (calls : List Call) :
    p.after calls = p := by
  induction calls with
  | nil => rfl
  | cons c calls ih =>
    have hstep : p.step c = p := by
      cases c with
      | next => rw [step, h]
      | _ => rfl
    rw [after, List.foldl_cons, hstep]
    exact ih

end Script

namespace Scanner

/-! ## The script of a scanner -/

/-- What can be seen of a scanner. -/
def script (s : Scanner) : Script :=
  ⟨s.left, s.current, s.failure?⟩

theorem left_eq_nil_iff (s : Scanner) : s.left = [] ↔ s.finished = true := by
  unfold left
  cases s.finished with
  | true => exact iff_of_true rfl rfl
  | false =>
    cases s.ahead with
    | some t => exact iff_of_false (List.cons_ne_nil _ _) Bool.false_ne_true
    | none =>
      refine iff_of_false ?_ Bool.false_ne_true
      rw [s.reader.tokens_eq_scan]
      exact List.cons_ne_nil _ _

theorem failure?_next (s : Scanner) : s.next.2.failure? = s.failure? := by
  unfold next
  cases s.finished <;> cases s.ahead <;> rfl

/-- Nothing is left exactly if the token just handed out is the end of the input. -/
theorem left_next_eq_nil_iff {s s' : Scanner} (h : s.next = (true, s')) :
    s'.left = [] ↔ s'.current.token = .eof := by
  have hfinished : s'.finished = s'.current.token.isEof := by
    unfold next at h
    split at h
    · cases h
    · split at h <;> cases h <;> rfl
  rw [left_eq_nil_iff, hfinished]
  cases s'.current.token with
  | eof => exact iff_of_true rfl rfl
  | _ => exact iff_of_false Bool.false_ne_true nofun

/-- Handing out moves the mark. -/
theorem script_next (s : Scanner) :
    s.next.1 = decide (s.left ≠ []) ∧ s.next.2.script = s.script.step .next := by
  rcases s.next_left with ⟨hleft, hnext⟩ | ⟨s', hnext, hleft⟩
  · rw [hnext]
    simp [script, Script.step, hleft]
  · have hfailure : s'.failure? = s.failure? := by rw [← s.failure?_next, hnext]
    rw [hnext]
    simp [script, Script.step, hleft, hfailure]

/-- Looking ahead reads the first token that is left, and leaves the mark where it is. -/
theorem script_peek (s : Scanner) :
    s.peek.1 = (s.left.head?.map Located.token).getD .eof ∧ s.peek.2.script = s.script := by
  unfold peek script left
  cases hfinished : s.finished with
  | true => simp [hfinished]
  | false =>
    cases hahead : s.ahead with
    | some t => simp [hfinished, hahead]
    | none =>
      -- The reader has gone on, but the token it has passed is kept.
      rw [s.reader.tokens_eq_scan]
      simp

/-- A scanner answers a call as its script does. -/
theorem script_call (s : Scanner) (c : Call) :
    (s.call c).1 = s.script.answer c ∧ (s.call c).2.script = s.script.step c := by
  cases c with
  | next =>
    obtain ⟨hanswer, hscript⟩ := s.script_next
    exact ⟨congrArg Answer.more hanswer, hscript⟩
  | peek =>
    obtain ⟨hanswer, hscript⟩ := s.script_peek
    exact ⟨congrArg Answer.token hanswer, hscript⟩
  | _ => exact ⟨rfl, rfl⟩

/-- A scanner answers any calls as its script does. -/
theorem record_eq (s : Scanner) (calls : List Call) : s.record calls = s.script.record calls := by
  induction calls generalizing s with
  | nil => rfl
  | cons c calls ih =>
    obtain ⟨hanswer, hscript⟩ := s.script_call c
    rw [record, Script.record, hanswer, ih, hscript]

theorem script_after (s : Scanner) (calls : List Call) :
    (s.after calls).script = s.script.after calls := by
  induction calls generalizing s with
  | nil => rfl
  | cons c calls ih =>
    rw [after, ih, (s.script_call c).2]
    rfl

/-! ## The end of the input -/

variable {s : Scanner} {calls : List Call}

/-- Where some token was left before, none is left exactly if the end of the input has been
    handed out. -/
theorem left_after_eq_nil_iff (hs : s.left ≠ []) :
    (s.after calls).left = [] ↔ s.HandsOutEnd calls := by
  constructor
  · intro hnil
    induction calls using List.reverseRecOn with
    | nil => exact absurd hnil hs
    | append_singleton calls c ih =>
      by_cases hbefore : (s.after calls).left = []
      · obtain ⟨before, later, s', rfl, hend⟩ := ih hbefore
        exact ⟨before, later ++ [c], s', by simp, hend⟩
      · rw [after_append] at hnil
        have hleft := congrArg Script.left ((s.after calls).script_call c).2
        -- Only `next` can have taken the last token.
        cases c with
        | next =>
          rcases (s.after calls).next_left with ⟨hempty, -⟩ | ⟨s', hnext, -⟩
          · exact absurd hempty hbefore
          · refine ⟨calls, [], s', rfl, hnext, (left_next_eq_nil_iff hnext).1 ?_⟩
            simpa [after, call, hnext] using hnil
        | _ => exact absurd (hleft.symm.trans hnil) hbefore
  · rintro ⟨before, later, s', rfl, hnext, heof⟩
    have hnil : s'.left = [] := (left_next_eq_nil_iff hnext).2 heof
    have hafter : s.after (before ++ .next :: later) = s'.after later := by
      rw [after_append, after, call, hnext]
    rw [hafter]
    exact (congrArg Script.left (s'.script_after later)).trans
      ((congrArg Script.left (Script.after_of_left_eq_nil hnil later)).trans hnil)

/-- Where a token is left, looking ahead tells the one that the following `next` hands out. -/
theorem next_after_peek (hs : s.left ≠ []) {between : List Call} (h : .next ∉ between) :
    ∃ s', (s.peek.2.after between).next = (true, s') ∧ s'.current.token = s.peek.1 := by
  have hscript : (s.peek.2.after between).script = s.script := by
    rw [script_after, s.script_peek.2, Script.after_of_not_mem _ h]
  have hleft : (s.peek.2.after between).left = s.left := congrArg Script.left hscript
  rcases (s.peek.2.after between).next_left with ⟨hempty, -⟩ | ⟨s', hnext, hcons⟩
  · exact absurd (hleft.symm.trans hempty) hs
  · refine ⟨s', hnext, ?_⟩
    rw [s.script_peek.1, ← hleft, hcons]
    rfl

theorem left_ofSource_ne_nil (src : Source) : (ofSource src).left ≠ [] := by
  rw [Ne, left_eq_nil_iff]
  exact Bool.false_ne_true

/-- Looking ahead cannot be noticed, on any source.

      * Without the looks ahead, all other calls have the same answers.
      * A look ahead tells the token that the following `next` hands out, whatever other
        calls come in between, and the end of the input once that has been handed out.
      * After the end of the input has been handed out, `next` hands out nothing more, and
        the current token and its position stay those of the end. -/
theorem record_without_peek (src : Source) :
    (∀ calls, ((ofSource src).record calls).filter (fun r => r.1 ≠ .peek) =
      (ofSource src).record (calls.filter (· ≠ .peek))) ∧
    (∀ calls, let s := (ofSource src).after calls
      ((ofSource src).HandsOutEnd calls → s.peek.1 = .eof) ∧
      (¬(ofSource src).HandsOutEnd calls → ∀ between, .next ∉ between →
        ∃ s', (s.peek.2.after between).next = (true, s') ∧ s'.current.token = s.peek.1)) ∧
    (∀ before s', ((ofSource src).after before).next = (true, s') → s'.current.token = .eof →
      ∀ later, (s'.after later).next.1 = false ∧ (s'.after later).current = s'.current) := by
  have hfresh := left_ofSource_ne_nil src
  refine ⟨fun calls => ?_, ?_, ?_⟩
  · rw [record_eq, record_eq, Script.record_filter_peek]
  · intro calls s
    constructor
    · intro hend
      have hnil : s.left = [] := (left_after_eq_nil_iff hfresh).2 hend
      rw [s.script_peek.1, hnil]
      rfl
    · intro hend between h
      exact next_after_peek (mt (left_after_eq_nil_iff hfresh).1 hend) h
  · intro before s' hnext heof later
    have hnil : s'.left = [] := (left_next_eq_nil_iff hnext).2 heof
    have hscript : (s'.after later).script = s'.script := by
      rw [script_after, Script.after_of_left_eq_nil hnil]
    have hleft : (s'.after later).left = [] := (congrArg Script.left hscript).trans hnil
    refine ⟨?_, congrArg Script.current hscript⟩
    rw [(s'.after later).script_next.1, hleft]
    rfl

/-- The source `+x>` with looks ahead before the first token, over the comment, at the end of
    the input and after it. -/
theorem record_without_peek_comment :
    let s := ofSource (.ofBytes "p.bf" [0x2B, 0x78, 0x3E])
    (s.record [.peek, .next, .peek, .pos, .next, .peek, .token, .next, .peek, .pos]).filter
        (fun r => r.1 ≠ .peek) = s.record [.next, .pos, .next, .token, .next, .pos] ∧
      ¬s.HandsOutEnd [.next] ∧ (s.after [.next]).peek.1 = .command .right ∧
      (∃ s', ((s.after [.next]).peek.2.after [.token, .peek]).next = (true, s') ∧
        s'.current.token = .command .right) ∧
      s.HandsOutEnd [.next, .next, .next] ∧ (s.after [.next, .next, .next]).peek.1 = .eof ∧
      ∃ s', (s.after [.next, .next]).next = (true, s') ∧
        s'.current = ⟨.eof, ⟨"p.bf", 1, 4, 3⟩⟩ ∧ (s'.after [.peek, .next, .peek]).next.1 = false ∧
        (s'.after [.peek, .next, .peek]).current = s'.current := by
  intro s
  obtain ⟨hfilter, hpeek, hend⟩ := record_without_peek (.ofBytes "p.bf" [0x2B, 0x78, 0x3E])
  have hopen : ¬s.HandsOutEnd [.next] := by
    rw [← left_after_eq_nil_iff (left_ofSource_ne_nil _)]
    exact List.cons_ne_nil _ _
  obtain ⟨s', hnext, hcurrent⟩ : ∃ s', (s.after [.next, .next]).next = (true, s') ∧
      s'.current = ⟨.eof, ⟨"p.bf", 1, 4, 3⟩⟩ := ⟨_, rfl, rfl⟩
  have heof : s'.current.token = .eof := congrArg Located.token hcurrent
  have hdone : s.HandsOutEnd [.next, .next, .next] := ⟨[.next, .next], [], s', rfl, hnext, heof⟩
  have htold : (s.after [.next]).peek.1 = .command .right := rfl
  refine ⟨hfilter _, hopen, htold, ?_, hdone, (hpeek _).1 hdone, s', hnext, hcurrent,
    hend _ s' hnext heof _⟩
  rw [← htold]
  exact (hpeek [.next]).2 hopen [.token, .peek] (by decide)

end Scanner

end TapeCompiler
