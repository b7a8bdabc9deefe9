import TapeCompiler.CommandLine.Compile
import TapeCompiler.Proofs.Discovery

/-!
# Flags over settings

Four flags speak about settings (`CommandLine.Overrides`): `Options.given` is what they say
if every flag counts that is given, `Options.counted` what they say if a name counts only if
it is not empty. The settings in effect are those that were found, with what is counted put
in its place, provided that they pass the check. That is `CommandLine.settle_overrides`, for
all decoders and all worlds, and so for whatever settings are found.

A switch that is off is told apart from one that is not given. A name that is given but
empty is not, so it is passed over and the found one stays
(`CommandLine.settle_passes_over_empty`).
-/

namespace TapeCompiler.CommandLine

/-! ## What flags say -/

/-- The value of a flag that is given. -/
def FlagValue.given? {α : Type} (f : FlagValue α) : Option α :=
  if f.changed then some f.value else none

/-- The value of a flag for a name, unless it is empty. -/
def FlagValue.named? (f : FlagValue Bytes) : Option Bytes :=
  if f.value = [] then none else some f.value

/-- What flags say about settings. -/
structure Overrides where
  optimize? : Option Bool
  keepFiles? : Option Bool
  labels? : Option Bytes
  target? : Option Bytes

/-- The settings that were found, with what flags say put in its place. -/
def Overrides.over (v : Overrides) (found : Settings) : Settings :=
  { found with
    optimize := v.optimize?.getD found.optimize
    keepFiles := v.keepFiles?.getD found.keepFiles
    labels := v.labels?.getD found.labels
    target := v.target?.getD found.target }

/-- What the flags say that are given. -/
def Options.given (o : Options) : Overrides where
  optimize? := o.optimize.given?
  keepFiles? := o.keepFiles.given?
  labels? := o.labels.given?
  target? := o.target.given?

/-- What the flags say if an empty name says nothing. -/
def Options.counted (o : Options) : Overrides :=
  { o.given with
    labels? := o.labels.named?
    target? := o.target.named? }

/-- For a name that is empty only if the flag is not given, the two ways to tell whether it
    is given agree. -/
theorem FlagValue.named?_eq_given? {f : FlagValue Bytes} (h : f.value = [] ↔ f.changed = false) :
    f.named? = f.given? := by
  rw [named?, given?]
  cases hchanged : f.changed with
  | false => rw [if_pos (h.2 hchanged), if_neg (by decide)]
  | true =>
    have hvalue : f.value ≠ [] := fun hempty => by simp [h.1 hempty] at hchanged
    rw [if_neg hvalue, if_pos rfl]

theorem FlagValue.getD_given? {α : Type} (f : FlagValue α) (found : α) :
    f.given?.getD found = if f.changed then f.value else found := by
  rw [given?]
  split <;> rfl

theorem FlagValue.getD_named? (f : FlagValue Bytes) (found : Bytes) :
    f.named?.getD found = if f.value.isEmpty then found else f.value := by
  simp only [named?, List.isEmpty_iff]
  split <;> rfl

theorem override_eq (o : Options) (found : Settings) : found.override o = o.counted.over found := by
  simp only [Settings.override, Overrides.over, Options.counted, Options.given,
    FlagValue.getD_given?, FlagValue.getD_named?]

/-! ## Settings after the flags -/

/-- What comes of the settings that were found, if the flags make `merge` of them. -/
def outcome (merge : Settings → Settings) :
    Except ConfigError Settings → Except RunError Settings
  | .error e => .error (.unsettled e)
  | .ok found =>
    match (merge found).validate with
    | .error e => .error (.missettled e)
    | .ok () => .ok (merge found)

theorem run_settle (decoders : Settings.Decoders) (o : Options) (w : World) :
    ((settle decoders o : StateM World _).run w).1 = outcome o.counted.over
      ((Settings.discover decoders o.configFile : StateM World _).run w).1 := by
  rw [settle, World.run_bind]
  cases ((Settings.discover decoders o.configFile : StateM World _).run w).1 with
  | error e => rfl
  | ok found =>
    simp only [outcome, override_eq]
    cases (o.counted.over found).validate <;> rfl

section Outcome

variable {merge : Settings → Settings} {found? : Except ConfigError Settings} {found s : Settings}

theorem outcome_of_valid (h : (merge found).validate = .ok ()) :
    outcome merge (.ok found) = .ok (merge found) := by
  rw [outcome, h]

theorem outcome_of_invalid {e : InvalidSettings} (h : (merge found).validate = .error e) :
    outcome merge (.ok found) = .error (.missettled e) := by
  rw [outcome, h]

theorem outcome_eq_ok_iff : outcome merge found? = .ok s ↔
    ∃ found, found? = .ok found ∧ s = merge found ∧ s.validate = .ok () := by
  constructor
  · intro h
    cases found? with
    | error e => cases h
    | ok found =>
      cases hcheck : (merge found).validate with
      | error e => cases (outcome_of_invalid hcheck).symm.trans h
      | ok =>
        cases (outcome_of_valid hcheck).symm.trans h
        exact ⟨found, rfl, rfl, hcheck⟩
  · rintro ⟨found, rfl, rfl, hcheck⟩
    exact outcome_of_valid hcheck

theorem exists_outcome_eq_error_iff : (∃ e, outcome merge found? = .error e) ↔
    (∃ e, found? = .error e) ∨
      ∃ found e, found? = .ok found ∧ (merge found).validate = .error e := by
  cases found? with
  | error e => exact iff_of_true ⟨_, rfl⟩ (.inl ⟨e, rfl⟩)
  | ok found =>
    cases hcheck : (merge found).validate with
    | error e => exact iff_of_true ⟨_, outcome_of_invalid hcheck⟩ (.inr ⟨found, e, rfl, hcheck⟩)
    | ok => simp [outcome_of_valid hcheck, hcheck]

end Outcome

/-- Whatever the decoders make of files and whatever the flags are: the settings in effect are
    those that were found with what the flags say in its place, if that passes the check; if
    not, or if nothing could be found, that is the error. All else is as it was found. An
    empty name says nothing. So if a name is empty exactly when its flag is not given, it is
    what is given that counts. -/
theorem settle_overrides (decoders : Settings.Decoders) (o : Options) (w : World) :
    let found? := ((Settings.discover decoders o.configFile : StateM World _).run w).1
    let settled? := ((settle decoders o : StateM World _).run w).1
    let merge := o.counted.over
    (∀ s, settled? = .ok s ↔
      ∃ found, found? = .ok found ∧ s = merge found ∧ s.validate = .ok ()) ∧
    ((∃ e, settled? = .error e) ↔
      (∃ e, found? = .error e) ∨
        ∃ found e, found? = .ok found ∧ (merge found).validate = .error e) ∧
    (∀ e, found? = .error e → settled? = .error (.unsettled e)) ∧
    (∀ found e, found? = .ok found → (merge found).validate = .error e →
      settled? = .error (.missettled e)) ∧
    ((∀ f ∈ [o.labels, o.target], f.value = [] ↔ f.changed = false) → merge = o.given.over) := by
  intro found? settled? merge
  have hsettled : settled? = outcome merge found? := run_settle decoders o w
  rw [hsettled]
  refine ⟨fun s => outcome_eq_ok_iff, exists_outcome_eq_error_iff, ?_, ?_, ?_⟩
  · intro e hfound
    rw [hfound]
    rfl
  · intro found e hfound hcheck
    rw [hfound]
    exact outcome_of_invalid hcheck
  · intro hnames
    have hlabels := FlagValue.named?_eq_given? (hnames o.labels (by simp))
    have htarget := FlagValue.named?_eq_given? (hnames o.target (by simp))
    have hcounted : o.counted = o.given := by
      rw [Options.counted, hlabels, htarget]
      rfl
    exact congrArg Overrides.over hcounted

/-- Flags over the settings in a file: one that is off, one that says what holds without it,
    and one in upper case. -/
theorem settle_overrides_file :
    let decoders : Settings.Decoders := fun _ _ =>
      .ok { optimize := true, keepFiles := true, labels := "random" }
    let w : World := { files := ⟨[(["bfc.toml"], .file [] false)]⟩ }
    let o : Options := {
      optimize := ⟨false, true⟩, labels := ⟨"counter", true⟩, target := ⟨"ASM", true⟩ }
    let found : Settings := { Settings.default with
      optimize := true, keepFiles := true, labels := "random", source? := some "./bfc.toml" }
    ((Settings.discover decoders [] : StateM World _).run w).1 = .ok found ∧
      ((settle decoders o : StateM World _).run w).1 = .ok (o.given.over found) ∧
      o.given.over found =
        { found with optimize := false, labels := "counter", target := "ASM" } := by
  intro decoders w o found
  have hfound : ((Settings.discover decoders [] : StateM World _).run w).1 = .ok found := by
    decide +kernel
  obtain ⟨hok, -, -, -, hgiven⟩ := settle_overrides decoders o w
  rw [hgiven (by decide)] at hok
  exact ⟨hfound, (hok _).2 ⟨found, hfound, rfl, by decide +kernel⟩, rfl⟩

/-- With an empty name for the labels the settings would not pass the check, and with one for
    the target neither. But both are passed over. -/
theorem settle_passes_over_empty :
    let decoders : Settings.Decoders := fun _ _ => .ok { labels := "random", target := "c" }
    let w : World := { files := ⟨[(["bfc.toml"], .file [] false)]⟩ }
    let noLabels : Options := { labels := ⟨[], true⟩ }
    let noTarget : Options := { target := ⟨[], true⟩ }
    let found : Settings := { Settings.default with
      labels := "random", target := "c", source? := some "./bfc.toml" }
    ((Settings.discover decoders [] : StateM World _).run w).1 = .ok found ∧
      (noLabels.given.over found).validate = .error (.labels []) ∧
      ((settle decoders noLabels : StateM World _).run w).1.toOption = some found ∧
      (noTarget.given.over found).validate = .error (.target []) ∧
      ((settle decoders noTarget : StateM World _).run w).1.toOption = some found := by
  decide +kernel

end TapeCompiler.CommandLine
