import TapeCompiler.CommandLine.Run
import TapeCompiler.Proofs.Discovery

/-!
# Settings that can be used

Settings are checked when they have been loaded, and again after the flags. What passes the
check can be used (`Settings.Usable`): the names of the tools are not blank, the labels are
of a kind that exists, and the target is found under its name in lower case.

No world hands out settings that did not pass, whatever the decoders read in a file and
whatever variables stand for (`World.Gives` says what holds for every result of a
computation). So nothing that asks for the target of such settings is refused:
`CommandLine.settings_usable`.
-/

namespace TapeCompiler

/-! ## Names of targets -/

namespace Letter

/-- The lower case of a text, as far as it is an ASCII word. -/
def lowered (b : Bytes) : String := String.ofList ((Glyph.chars b).map lower)

theorem isWord_iff {word : String} {b : Bytes} : isWord word b ↔ lowered b = word := by
  rw [isWord, beq_iff_eq, lowered, ← String.toList_inj, String.toList_ofList]

/-- Of the letters in lower case, only `i` and `k` are that of a letter beyond ASCII. -/
theorem isAlpha_of_lower {c : Char} (h : (lower c).isAlpha) (hi : lower c ≠ 'i')
    (hk : lower c ≠ 'k') : c.isAlpha := by
  rw [lower] at h hi hk
  split_ifs at h hi hk
  · exact absurd rfl hi
  · exact absurd rfl hk
  · by_cases hup : c.isUpper
    · exact Bool.or_eq_true_iff.2 (.inl hup)
    · have hsame : c.toLower = c := dif_neg fun hrange => hup (decide_eq_true hrange)
      rwa [hsame] at h

end Letter

namespace Target

/-- A target is found under every text whose lower case is its name. -/
theorem exists_ofName? {name : Bytes} (h : Letter.lowered name ∈ names) :
    ∃ t, ofName? name = .ok t ∧ t.name = Letter.lowered name := by
  obtain ⟨t, ht, hname⟩ := List.mem_map.1 h
  rw [ofName?]
  cases hfind : all.find? fun t => Letter.isWord t.name name with
  | none =>
    rw [List.find?_eq_none] at hfind
    exact absurd (Letter.isWord_iff.2 hname.symm) (hfind t ht)
  | some t =>
    have hword := List.find?_some hfind
    exact ⟨t, rfl, (Letter.isWord_iff.1 hword).symm⟩

/-- The name of a target has no letters beyond ASCII, in any case. -/
theorem isAlpha_of_lowered {name : Bytes} (h : Letter.lowered name ∈ names) :
    ∀ c ∈ Glyph.chars name, c.isAlpha := by
  intro c hc
  have hmem : Letter.lower c ∈ (Letter.lowered name).toList := by
    rw [Letter.lowered, String.toList_ofList]
    exact List.mem_map_of_mem hc
  have hletters : names.all fun word =>
      word.toList.all fun c => c.isAlpha && c != 'i' && c != 'k' := by decide
  rw [List.all_eq_true] at hletters
  have hletter := List.all_eq_true.1 (hletters _ h) _ hmem
  rw [Bool.and_eq_true, Bool.and_eq_true, bne_iff_ne, bne_iff_ne] at hletter
  exact Letter.isAlpha_of_lower hletter.1.1 hletter.1.2 hletter.2

end Target

/-! ## Checked settings -/

namespace Settings

/-- What the compiler expects of settings. -/
structure Usable (s : Settings) : Prop where
  valid : s.validate = .ok ()
  assembler : ∃ g ∈ Glyph.decode s.toolchain.assembler, g.isBlank = false
  cc : ∃ g ∈ Glyph.decode s.toolchain.cc, g.isBlank = false
  labels : s.labels = "counter" ∨ s.labels = "random"
  target : ∃ t, Target.ofName? s.target = .ok t ∧ t.name = Letter.lowered s.target
  letters : ∀ c ∈ Glyph.chars s.target, c.isAlpha

theorem isAllBlank_eq_false_iff {name : Bytes} :
    Blank.isAllBlank name = false ↔ ∃ g ∈ Glyph.decode name, g.isBlank = false := by
  rw [Blank.isAllBlank, List.all_eq_false]
  simp only [Bool.not_eq_true]

theorem validate_eq_ok_iff {s : Settings} : s.validate = .ok () ↔
    Letter.lowered s.target ∈ Target.names ∧ (s.labels = "counter" ∨ s.labels = "random") ∧
      Blank.isAllBlank s.toolchain.assembler = false ∧
      Blank.isAllBlank s.toolchain.cc = false := by
  have htarget : Letter.lowered s.target ∈ Target.names ↔
      ¬(!Letter.isWord "asm" s.target && !Letter.isWord "c" s.target) = true := by
    have hnames : Target.names = ["asm", "c"] := rfl
    rw [hnames, List.mem_pair, ← Letter.isWord_iff, ← Letter.isWord_iff]
    simp [or_iff_not_imp_left]
  have hlabels : (s.labels = "counter" ∨ s.labels = "random") ↔
      ¬(s.labels ≠ "counter" ∧ s.labels ≠ "random") := by
    rw [not_and_or, not_not, not_not]
  have hblank : (Blank.isAllBlank s.toolchain.assembler = false ∧
      Blank.isAllBlank s.toolchain.cc = false) ↔
      ¬(Blank.isAllBlank s.toolchain.assembler || Blank.isAllBlank s.toolchain.cc) = true := by
    rw [Bool.or_eq_true, not_or, Bool.not_eq_true, Bool.not_eq_true]
  rw [htarget, hlabels, hblank, validate]
  split
  case isTrue h => exact iff_of_false (by simp) fun h' => h'.1 h
  case isFalse h =>
    split
    case isTrue h' => exact iff_of_false (by simp) fun h'' => h''.2.1 h'
    case isFalse h' =>
      split
      case isTrue h'' => exact iff_of_false (by simp) fun h''' => h'''.2.2 h''
      case isFalse h'' => exact iff_of_true rfl ⟨h, h', h''⟩

theorem usable_of_validate {s : Settings} (h : s.validate = .ok ()) : s.Usable := by
  obtain ⟨htarget, hlabels, hassembler, hcc⟩ := validate_eq_ok_iff.1 h
  exact ⟨h, isAllBlank_eq_false_iff.1 hassembler, isAllBlank_eq_false_iff.1 hcc, hlabels,
    Target.exists_ofName? htarget, Target.isAlpha_of_lowered htarget⟩

end Settings

/-! ## All results of a computation -/

/-- Every result of the computation has the property, whatever the world is like. -/
def World.Gives {α : Type} (p : α → Prop) (x : StateM World α) : Prop :=
  ∀ w, p (x.run w).1

namespace World.Gives

variable {α β : Type} {p : α → Prop} {q : β → Prop} {x : StateM World α} {f : α → StateM World β}

protected theorem pure {a : α} (h : p a) : Gives p (pure a : StateM World α) :=
  fun _ => h

protected theorem bind (hx : Gives p x) (hf : ∀ a, p a → Gives q (f a)) : Gives q (x >>= f) :=
  fun w => hf _ (hx w) _

/-- What is done first may not matter. -/
theorem after (x : StateM World α) (hf : ∀ a, Gives q (f a)) : Gives q (x >>= f) :=
  fun _ => hf _ _

end World.Gives

open World

namespace Settings

/-- The settings have passed the check, if there are any. -/
def Checked {ε : Type} : Except ε Settings → Prop
  | .ok s => s.validate = .ok ()
  | .error _ => True

theorem Checked.usable {ε : Type} {r : Except ε Settings} (h : Checked r) {s : Settings}
    (hs : r = .ok s) : s.Usable := by
  subst hs
  exact usable_of_validate h

/-- The defaults pass the check. -/
theorem validate_default : Settings.default.validate = .ok () := by
  decide +kernel

variable (decoders : Decoders)

theorem gives_load (path : Bytes) : Gives Checked (load decoders path : StateM World _) := by
  intro w
  obtain ⟨result, hrun, hresult⟩ := run_load decoders w path
  rw [hrun]
  rcases hresult with ⟨-, rfl⟩ | ⟨-, hdecodes⟩
  · trivial
  · cases hdecodes with
    | valid hread hdecode hcheck => exact hcheck
    | unreadYaml | unreadToml | malformed | invalid => trivial

theorem gives_discover (explicit : Bytes) :
    Gives Checked (discover decoders explicit : StateM World _) := by
  rw [discover]
  split
  · exact gives_load decoders explicit
  · refine .after _ fun named => ?_
    split
    · exact gives_load decoders _
    · refine .after _ fun paths => .after _ fun path? => ?_
      cases path? with
      | some path => exact gives_load decoders path
      | none => exact .pure validate_default

end Settings

namespace CommandLine

open Settings

/-- Nothing was refused because no target has its name. -/
def Targeted {α : Type} : Except RunError α → Prop
  | .error (.unknownTarget _) => False
  | _ => True

theorem Targeted.ne {α : Type} {r : Except RunError α} (h : Targeted r) (e : UnknownTarget) :
    r ≠ .error (.unknownTarget e) := by
  rintro rfl
  exact h

/-- An error that is handed on. -/
theorem Targeted.error {α β : Type} {e : RunError} (h : Targeted (.error e : Except RunError α)) :
    Targeted (.error e : Except RunError β) := by
  cases e with
  | unknownTarget => exact h
  | _ => trivial

variable (decoders : Decoders) (styles : Styles)

theorem gives_settle (o : Options) :
    Gives (fun r => Checked r ∧ Targeted r) (settle decoders o : StateM World _) := by
  rw [settle]
  refine .after _ fun found? => ?_
  cases found? with
  | error e => exact .pure ⟨trivial, trivial⟩
  | ok found =>
    simp only
    cases hcheck : (found.override o).validate with
    | error e => exact .pure ⟨trivial, trivial⟩
    | ok => exact .pure ⟨hcheck, trivial⟩

/-- What goes on with the settings in effect goes on with usable ones. -/
theorem gives_settle_bind {use : Settings → StateM World (Except RunError Unit)} (o : Options)
    (huse : ∀ s, s.Usable → Gives Targeted (use s)) :
    Gives Targeted (settle decoders o >>= fun
      | .error e => pure (.error e)
      | .ok s => use s) := by
  refine (gives_settle decoders o).bind fun settings? h => ?_
  cases settings? with
  | error e => exact .pure h.2.error
  | ok s => exact huse s (h.1.usable rfl)

theorem gives_openSource (file : Bytes) : Gives Targeted (openSource file : StateM World _) := by
  rw [openSource]
  refine .after _ fun content? => ?_
  cases content? with
  | ok content => exact .pure trivial
  | error e =>
    simp only
    split <;> exact .pure trivial

theorem gives_showTokens (file : Bytes) : Gives Targeted (showTokens file : StateM World _) := by
  rw [showTokens]
  refine (gives_openSource file).bind fun source? hsource => ?_
  cases source? with
  | error e => exact .pure hsource.error
  | ok source =>
    simp only
    split
    · exact .pure trivial
    · exact .after _ fun _ => .pure trivial

theorem targeted_treeText (format : Bytes) (p : Program) : Targeted (treeText format p) := by
  rw [treeText]
  split_ifs
  · cases (Node.document (.root p)).json <;> trivial
  all_goals trivial

theorem gives_showTree (file format : Bytes) :
    Gives Targeted (showTree file format : StateM World _) := by
  rw [showTree]
  refine (gives_openSource file).bind fun source? hsource => ?_
  cases source? with
  | error e => exact .pure hsource.error
  | ok source =>
    simp only
    split
    case h_1 => exact .pure trivial
    case h_2 p _ =>
      have htext := targeted_treeText format p
      cases htree : treeText format p with
      | error e =>
        rw [htree] at htext
        exact .pure htext.error
      | ok text => exact .after _ fun _ => .pure trivial

theorem gives_checkTools (t : Toolchain) : Gives Targeted (checkTools styles t : StateM World _) := by
  rw [checkTools]
  refine .after _ fun _ => .after _ fun assembler => .after _ fun cc => .after _ fun _ => ?_
  split
  · exact .after _ fun _ => .pure trivial
  · exact .pure trivial

theorem gives_build (o : Options) {s : Settings} (hs : s.Usable) (file : Bytes) :
    Gives Targeted (build o s file : StateM World _) := by
  obtain ⟨t, htarget, -⟩ := hs.target
  rw [build]
  simp only [htarget]
  -- The file of the settings may be logged first.
  split
  on_goal 1 => refine .after _ fun _ => ?_
  all_goals
    split
    · exact .pure trivial
    · refine .after _ fun seconds => .after _ fun tmpdir => .after _ fun labels? =>
        .after _ fun r => ?_
      cases r <;> exact .pure trivial

theorem gives_compile (o : Options) (file : Bytes) :
    Gives Targeted (compile decoders o file : StateM World _) := by
  rw [compile]
  split_ifs
  · exact gives_showTokens file
  · exact gives_showTree file o.treeFormat
  · exact gives_settle_bind decoders o fun s hs => gives_build o hs file

theorem gives_startSession (o : Options) :
    Gives Targeted (startSession decoders styles o : StateM World _) := by
  refine gives_settle_bind decoders o fun s hs => ?_
  obtain ⟨t, htarget, -⟩ := hs.target
  rw [htarget]
  exact .after _ fun _ => .pure trivial

theorem gives_serve (library : Library) (info : BuildInfo) (r : Request) :
    Gives Targeted (serve library info r : StateM World _) := by
  cases r with
  | compile o file => exact gives_compile library.decoders o file
  | command o c =>
    cases c with
    | version => exact .after _ fun _ => .pure trivial
    | doctor =>
      exact gives_settle_bind library.decoders o fun s _ =>
        gives_checkTools library.styles s.toolchain
    | session => exact gives_startSession library.decoders library.styles o
  | manual words =>
    rw [serve]
    split
    · exact .pure trivial
    · exact .after _ fun _ => .pure trivial

/-- Settings that pass the check are usable, wherever they come from. Whatever the decoders
    make of files, and in every world, with any values of variables and any way to replace
    them in a text, the settings of a file, those that are found and those in effect after the
    flags have passed it. So the target of the settings in effect is always found: neither
    compiling nor a session nor anything else that the program can be asked for ends because
    no target has that name. -/
theorem settings_usable :
    (∀ s : Settings, s.validate = .ok () → s.Usable) ∧
    ∀ (library : Library) (w : World),
      let decoders := library.decoders
      (∀ path s, ((load decoders path : StateM World _).run w).1 = .ok s → s.Usable) ∧
      (∀ explicit s, ((discover decoders explicit : StateM World _).run w).1 = .ok s → s.Usable) ∧
      (∀ o s, ((settle decoders o : StateM World _).run w).1 = .ok s → s.Usable) ∧
      (∀ o file e,
        ((compile decoders o file : StateM World _).run w).1 ≠ .error (.unknownTarget e)) ∧
      (∀ styles o e,
        ((startSession decoders styles o : StateM World _).run w).1 ≠ .error (.unknownTarget e)) ∧
      ∀ info request e,
        ((serve library info request : StateM World _).run w).1 ≠ .error (.unknownTarget e) := by
  refine ⟨fun _ => usable_of_validate, fun library w => ?_⟩
  intro decoders
  exact ⟨fun path _ => (gives_load decoders path w).usable,
    fun explicit _ => (gives_discover decoders explicit w).usable,
    fun o _ => (gives_settle decoders o w).1.usable,
    fun o file => (gives_compile decoders o file w).ne,
    fun styles o => (gives_startSession decoders styles o w).ne,
    fun info request => (gives_serve library info request w).ne⟩

/-- A file may name its target in upper case and a tool by a variable. -/
theorem settings_usable_variable :
    let library : Library := {
      decoders := fun _ _ => .ok { target := "C", toolchain := { assembler := [], cc := "$CC" } } }
    let w : World := {
      files := ⟨[(["bfc.toml"], .file [] false)]⟩
      env := [("CC", "tcc")] }
    let found : Settings := {
      target := "C", labels := "counter", source? := some "./bfc.toml"
      toolchain := { assembler := "as", cc := "tcc" } }
    ((settle library.decoders {} : StateM World _).run w).1.toOption = some found ∧
      found.validate = .ok () ∧ found.Usable ∧ Letter.lowered found.target = "c" ∧
      ∀ e, ((compile library.decoders {} "p.b" : StateM World _).run w).1 ≠
        .error (.unknownTarget e) := by
  intro library w found
  have hvalid : found.validate = .ok () := by decide +kernel
  exact ⟨by decide +kernel, hvalid, settings_usable.1 found hvalid, by decide +kernel,
    (settings_usable.2 library w).2.2.2.1 {} "p.b"⟩

end CommandLine

end TapeCompiler
