import TapeCompiler.Session.Basic

/-!
# Transcripts of sessions

The transcript of a session is what it says to entries, one after the other, and its
settings after each of them. Which entries are settings can be told from their words
(`Session.setting?`): `:ast`, `:target` with the name of a target, and `:opt` with `on` or
`off`. Each of them sets its own component (`Setting.apply`), and all other entries leave
the session as it is (`Session.fst_eval`), whatever becomes of the output.

With labels from a counter a reply depends on nothing but the session and the entry. So
other entries than settings can be left out of a transcript, and the rest of it stays the
same: `Session.transcript_depends_on_settings`.
-/

namespace TapeCompiler

/-- A byte string is at most one word. -/
theorem Letter.isWord_unique {word other : String} {b : Bytes} (h : isWord word b)
    (hne : word ≠ other) : isWord other b = false := by
  rw [isWord, beq_iff_eq] at h
  rw [isWord, h, beq_eq_false_iff_ne]
  exact fun heq => hne (String.toList_inj.1 heq)

namespace Session

/-! ## Settings -/

/-- What can be set in a session. -/
inductive Setting
  /-- Answer by trees instead of code, or the other way round. -/
  | tree
  | target (t : Target)
  | optimized (on : Bool)

namespace Setting

/-- The session with the setting. -/
def apply (s : Session) : Setting → Session
  | tree => { s with showTree := !s.showTree }
  | target t => { s with target := t }
  | optimized on => { s with optimized := on }

/-- The target with the name, in any case. -/
def ofTarget? (name : Bytes) : Option Setting :=
  (Target.all.find? fun t => Letter.isWord t.name name).map target

/-- On or off. -/
def ofSwitch? (how : Bytes) : Option Setting :=
  ([true, false].find? fun on => how = Bytes.ofString (onOff on)).map optimized

end Setting

/-- The setting that an entry is, by its first two words. -/
def setting? (entry : Bytes) : Option Setting :=
  match Blank.words entry with
  | [] => none
  | word :: args =>
    if Letter.isWord ":ast" word then some .tree
    else if Letter.isWord ":target" word then Setting.ofTarget? (args.headD [])
    else if Letter.isWord ":opt" word then Setting.ofSwitch? (args.headD [])
    else none

/-- The session after an entry, where only settings count. -/
def after (s : Session) (entry : Bytes) : Session :=
  match setting? entry with
  | some setting => setting.apply s
  | none => s

/-- The setting that a command is. -/
def Command.setting? : Command → Option Setting
  | .quit | .help => none
  | .ast => some .tree
  | .target name => Setting.ofTarget? name
  | .optimize how => Setting.ofSwitch? how

/-- An entry is the setting that its command is. -/
theorem setting?_eq (entry : Bytes) :
    setting? entry = (Command.ofEntry? entry).bind Command.setting? := by
  cases hwords : Blank.words entry with
  | nil => simp only [setting?, Command.ofEntry?, hwords, Option.bind_none]
  | cons word args =>
    -- The words of the other commands are none of those of settings.
    have hother : ∀ {other}, Letter.isWord other word → other ≠ ":ast" → other ≠ ":target" →
        other ≠ ":opt" → setting? entry = none := by
      intro other h hast htarget hopt
      simp only [setting?, hwords, Letter.isWord_unique h hast,
        Letter.isWord_unique h htarget, Letter.isWord_unique h hopt, Bool.false_eq_true,
        if_false]
    simp only [Command.ofEntry?, hwords, Command.ofWord?, Bool.or_eq_true]
    split
    · next h =>
      rcases h with h | h
      · exact hother h (by decide) (by decide) (by decide)
      · exact hother h (by decide) (by decide) (by decide)
    · split
      · next h => exact hother h (by decide) (by decide) (by decide)
      · rw [setting?, hwords]
        simp only
        split
        · rfl
        · split
          · rfl
          · split <;> rfl

variable (s : Session) (failure? : Option String) (identifiers : Nat → String)

theorem fst_obey (command : Command) : (s.obey failure? command).1 =
    match command.setting? with
    | some setting => setting.apply s
    | none => s := by
  cases command with
  | quit | help | ast => rfl
  | target name =>
    rw [obey, Target.ofName?, Command.setting?, Setting.ofTarget?]
    cases Target.all.find? fun t => Letter.isWord t.name name <;> rfl
  | optimize how =>
    have hon : Bytes.ofString (onOff true) = Bytes.ofString "on" := rfl
    have hoff : Bytes.ofString (onOff false) = Bytes.ofString "off" := rfl
    simp only [obey, Command.setting?, Setting.ofSwitch?, List.find?_cons, hon, hoff]
    split
    · next h =>
      rw [decide_eq_true h]
      rfl
    · next h =>
      rw [decide_eq_false h]
      split
      · next h' =>
        rw [decide_eq_true h']
        rfl
      · next h' =>
        rw [decide_eq_false h']
        rfl

theorem fst_eval (entry : Bytes) : (s.eval failure? identifiers entry).1 = s.after entry := by
  rw [eval, after, setting?_eq]
  cases Command.ofEntry? entry with
  | none => cases Program.parse (Source.ofBytes "" entry) <;> rfl
  | some command => exact s.fst_obey failure? command

/-- With a counter for labels it does not matter which random identifiers there are. -/
theorem eval_identifiers {s : Session} (h : s.labels = .counter) (failure? : Option String)
    (identifiers identifiers' : Nat → String) (entry : Bytes) :
    s.eval failure? identifiers entry = s.eval failure? identifiers' entry := by
  simp only [eval, display, h, LabelScheme.source]

theorem labels_after (entry : Bytes) : (s.after entry).labels = s.labels := by
  rw [after]
  cases setting? entry with
  | none => rfl
  | some setting => cases setting <;> rfl

/-! ## Transcripts -/

/-- An entry, and what all writes to the output fail with while it is answered, if they
    do. -/
structure Call where
  entry : Bytes
  failure? : Option String := none

/-- The session after each of the calls, and its reply. The calls get random identifiers, a
    series each. -/
def transcript (series : Nat → Nat → String) (s : Session) : List Call → List (Session × Reply)
  | [] => []
  | call :: calls =>
    let answer := s.eval call.failure? (series 0) call.entry
    answer :: transcript (fun i => series (i + 1)) answer.1 calls

/-- The elements of a list at the places that are kept. -/
def kept {α : Type} (keep : Nat → Bool) : List α → List α
  | [] => []
  | x :: xs =>
    let rest := kept (fun i => keep (i + 1)) xs
    if keep 0 then x :: rest else rest

/-- From one call to the next only settings change the session. -/
theorem transcript_step (series : Nat → Nat → String) (s : Session) {calls : List Call} {i : Nat}
    {call : Call} (h : calls[i]? = some call) : ∃ now,
      (s :: (s.transcript series calls).map (·.1))[i]? = some now ∧
      (s :: (s.transcript series calls).map (·.1))[i + 1]? = some (now.after call.entry) := by
  induction calls generalizing series s i with
  | nil => cases h
  | cons first calls ih =>
    cases i with
    | zero =>
      obtain rfl : first = call := Option.some.inj h
      exact ⟨s, rfl, congrArg some (s.fst_eval ..)⟩
    | succ i => exact ih _ _ h

/-- Calls that are no settings can be left out. -/
theorem transcript_kept {s : Session} (hlabels : s.labels = .counter)
    (series series' : Nat → Nat → String) {calls : List Call} {keep : Nat → Bool}
    (h : ∀ i call, calls[i]? = some call → keep i = false → setting? call.entry = none) :
    s.transcript series' (kept keep calls) = kept keep (s.transcript series calls) := by
  induction calls generalizing s series series' keep with
  | nil => rfl
  | cons call calls ih =>
    have hrest : ∀ i call, calls[i]? = some call → keep (i + 1) = false →
        setting? call.entry = none := fun i call hcall => h (i + 1) call hcall
    have hafter := s.fst_eval call.failure? (series 0) call.entry
    have hbehind : (s.eval call.failure? (series 0) call.entry).1.labels = .counter := by
      rw [hafter, labels_after, hlabels]
    rw [kept, transcript, kept]
    split
    · -- The call is answered from the same session, and leads to the same.
      rw [transcript, eval_identifiers hlabels call.failure? (series' 0) (series 0),
        ih hbehind _ _ hrest]
    · next hdrop =>
      have hsetting := h 0 call rfl (by simpa using hdrop)
      have hsame : (s.eval call.failure? (series 0) call.entry).1 = s := by
        rw [hafter, after, hsetting]
      rw [ih hlabels (fun i => series (i + 1)) series' hrest, hsame]

/-- A session with labels from a counter depends on nothing but its settings. From each
    call to the next its components change only if the entry is a setting, and then only the
    one that is set. Programs, `:help`, `:quit` and commands whose argument is not accepted
    can be left out in any places: the replies to the other calls and the session after each
    of them stay the same. Nothing of that depends on which writes to the output fail. -/
theorem transcript_depends_on_settings {s : Session} (hlabels : s.labels = .counter)
    (calls : List Call) (series : Nat → Nat → String) :
    (∀ i call, calls[i]? = some call → ∃ now,
      (s :: (s.transcript series calls).map (·.1))[i]? = some now ∧
      (s :: (s.transcript series calls).map (·.1))[i + 1]? = some (now.after call.entry)) ∧
    ∀ keep : Nat → Bool,
      (∀ i call, calls[i]? = some call → keep i = false → setting? call.entry = none) →
      ∀ series', s.transcript series' (kept keep calls) = kept keep (s.transcript series calls) :=
  ⟨fun _ _ hcall => transcript_step series s hcall,
    fun _ hidle series' => transcript_kept hlabels series series' hidle⟩

/-- Left out are a loop that is not closed and a target that does not exist. The output fails
    while the first setting is answered. -/
theorem transcript_depends_on_settings_mixed :
    let s : Session := { target := C.target }
    let series : Nat → Nat → String := fun _ => toString
    let tree : Call := ⟨Bytes.ofString ":AST", some "disk full"⟩
    let program : Call := ⟨Bytes.ofString "+[.-]", none⟩
    let calls := [⟨Bytes.ofString "+[", none⟩, tree, ⟨Bytes.ofString ":target java", none⟩, program]
    s.transcript series [tree, program] = kept (· % 2 = 1) (s.transcript series calls) ∧
      ((s.transcript series calls).map (·.1.showTree)) = [false, true, true, true] := by
  intro s series tree program calls
  have hopen : setting? (Bytes.ofString "+[") = none :=
    Option.isNone_iff_eq_none.1 (by decide +kernel)
  have hjava : setting? (Bytes.ofString ":target java") = none :=
    Option.isNone_iff_eq_none.1 (by decide +kernel)
  have hidle : ∀ i call, calls[i]? = some call → decide (i % 2 = 1) = false →
      setting? call.entry = none := by
    intro i call hcall hdrop
    match i with
    | 0 => exact Option.some.inj hcall ▸ hopen
    | 1 | 3 => cases hdrop
    | 2 => exact Option.some.inj hcall ▸ hjava
    | i + 4 => cases hcall
  obtain ⟨-, hkept⟩ := transcript_depends_on_settings (s := s) rfl calls series
  refine ⟨hkept (· % 2 = 1) hidle series, ?_⟩
  decide +kernel

end Session

end TapeCompiler
