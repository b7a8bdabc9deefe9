import TapeCompiler.Config.Load
import TapeCompiler.Proofs.Paths
import TapeCompiler.Proofs.ToolRuns

/-!
# Settings that are found

Without a file that is asked for or named by the environment, the settings are looked for
in a few places. `World.Decodes` says what can come of a file with settings, apart from
how it was found, and whatever the decoders of the two formats make of its content.

Loading a file replaces the variables in its path first (`Settings.run_load`), but the
search looks for the path as it is. So the file that was found is the one that is read
exactly as long as its path stays as it is (`Settings.discover_reads_expanded`). That is
so for the places in the working directory, and for the one in the home directory unless
a dollar sign is in the name of that directory (`World.dollar_not_mem_of_mem_searchPaths`).
-/

namespace TapeCompiler

/-! ## Variables in texts -/

namespace Expansion

variable {value : Bytes → Bytes} {text : Bytes}

theorem expandOnto_of_not_mem (h : dollar ∉ text) (acc : Bytes) :
    expandOnto value acc 0 text = acc.reverse ++ text := by
  induction text generalizing acc with
  | nil => rw [expandOnto, List.append_nil]
  | cons b text ih =>
    rw [List.mem_cons, not_or] at h
    rw [expandOnto, if_neg (Ne.symm h.1), ih h.2, List.reverse_cons, List.append_assoc,
      List.singleton_append]

/-- A text without a dollar sign stays as it is. -/
theorem expand_of_not_mem (h : dollar ∉ text) : expand value text = text := by
  rw [expand, expandOnto_of_not_mem h, List.reverse_nil, List.nil_append]

end Expansion

namespace World

/-- Whether something stands at a path. -/
def has (w : World) (path : Bytes) : Bool := (w.files.stat w.cwd path).isOk

theorem run_getEnv (name : Bytes) (w : World) :
    (Host.getEnv name : StateM World _).run w = (w.env.lookup name, w) := rfl

theorem run_expandEnv (text : Bytes) (w : World) :
    (Host.expandEnv text : StateM World _).run w = (w.expandEnv text, w) := rfl

theorem run_stat (path : Bytes) (w : World) :
    (Host.stat path : StateM World _).run w = (w.files.stat w.cwd path, w) := rfl

theorem run_readFile (path : Bytes) (w : World) :
    (Host.readFile path : StateM World _).run w = (w.files.readFile w.cwd path, w) := rfl

/-- The places in the working directory where settings are looked for. -/
def localPaths : List Bytes := ["./bfc.toml", "./bfc.yaml"]

/-- The places where settings are looked for. -/
def searchPaths (w : World) : List Bytes := ((Settings.searchPaths : StateM World _).run w).1

theorem searchPaths_eq (w : World) : w.searchPaths =
    localPaths ++ if w.value "HOME" = [] then []
      else [Path.join [w.value "HOME", ".config", "bfc", "config.toml"]] := by
  rw [searchPaths, Settings.searchPaths, run_bind, run_getEnv, value]
  cases w.env.lookup (Bytes.ofString "HOME") with
  | none => rfl
  | some home =>
    simp only [Option.getD_some, ← List.isEmpty_iff]
    split <;> rfl

/-- A place where settings are looked for has no dollar sign if it is in the working
    directory, and else if the home directory has none. -/
theorem dollar_not_mem_of_mem_searchPaths {w : World} {p : Bytes} (h : p ∈ w.searchPaths)
    (hdollar : p ∈ localPaths ∨ Expansion.dollar ∉ w.value "HOME") : Expansion.dollar ∉ p := by
  have hlocal : ∀ p ∈ localPaths, Expansion.dollar ∉ p := by decide
  have hfixed : ∀ q ∈ ([".config", "bfc", "config.toml"] : List Bytes), Expansion.dollar ∉ q := by
    decide
  rw [searchPaths_eq, List.mem_append] at h
  rcases hdollar with hp | hhome
  · exact hlocal p hp
  · rcases h with hp | hp
    · exact hlocal p hp
    · split at hp
      · cases hp
      · rw [List.mem_singleton.1 hp]
        intro hmem
        rcases Path.mem_join hmem with ⟨q, hq, hmem⟩ | hslash | hdot
        · rcases List.mem_cons.1 hq with rfl | hq
          · exact hhome hmem
          · exact hfixed q hq hmem
        · exact absurd hslash (by decide)
        · exact absurd hdot (by decide)

/-! ## Decoding a file -/

/-- Settings that were decoded, with defaults, with variables replaced in the names of the
    tools, and with the file that they come from. -/
def completed (w : World) (raw : Settings) (path : Bytes) : Settings :=
  let s := raw.withDefaults
  { s with
    toolchain :=
      { s.toolchain with
        assembler := w.expandEnv s.toolchain.assembler
        cc := w.expandEnv s.toolchain.cc }
    source? := some path }

/-- What can come of the file with settings at a path: it is read, decoded in the format
    that its path asks for, completed and checked. -/
inductive Decodes (decoders : Settings.Decoders) (w : World) (path : Bytes) :
    Except ConfigError Settings → Prop where
  | unreadYaml {e : FileError} (hformat : Settings.FileFormat.ofPath path = .yaml)
      (hread : w.files.readFile w.cwd path = .error e) :
      Decodes decoders w path (.error (.unreadable e))
  | unreadToml {e : FileError} (hformat : Settings.FileFormat.ofPath path = .toml)
      (hread : w.files.readFile w.cwd path = .error e) :
      Decodes decoders w path (.error (.unparsable path e.message))
  | malformed {content detail : Bytes} (hread : w.files.readFile w.cwd path = .ok content)
      (hdecode : decoders (.ofPath path) content = .error detail) :
      Decodes decoders w path (.error (.unparsable path detail))
  | invalid {content : Bytes} {raw : Settings} {e : InvalidSettings}
      (hread : w.files.readFile w.cwd path = .ok content)
      (hdecode : decoders (.ofPath path) content = .ok raw)
      (hcheck : (w.completed raw path).validate = .error e) :
      Decodes decoders w path (.error (.invalid path e))
  | valid {content : Bytes} {raw : Settings}
      (hread : w.files.readFile w.cwd path = .ok content)
      (hdecode : decoders (.ofPath path) content = .ok raw)
      (hcheck : (w.completed raw path).validate = .ok ()) :
      Decodes decoders w path (.ok (w.completed raw path))

end World

/-- The error is about reading, decoding or checking the file at this path. -/
def ConfigError.IsAbout (path : Bytes) : ConfigError → Prop
  | notFound _ => False
  | unreadable e => e.path = path
  | unparsable p _ => p = path
  | invalid p _ => p = path

theorem FileTree.path_of_readFile {t : FileTree} {cwd : Place} {path : Bytes} {e : FileError}
    (h : t.readFile cwd path = .error e) : e.path = path := by
  rw [readFile] at h
  split at h <;> cases h <;> rfl

namespace World.Decodes

variable {decoders : Settings.Decoders} {w : World} {path : Bytes}

theorem source_eq {s : Settings} (h : w.Decodes decoders path (.ok s)) : s.source? = some path := by
  cases h
  rfl

theorem isAbout {e : ConfigError} (h : w.Decodes decoders path (.error e)) : e.IsAbout path := by
  cases h with
  | unreadYaml hformat hread => exact FileTree.path_of_readFile hread
  | unreadToml | malformed | invalid => rfl

end World.Decodes

/-! ## Loading a file -/

namespace Settings

variable (decoders : Decoders) (w : World)

theorem run_expandTools (s : Settings) : (expandTools s : StateM World _).run w =
    ({ s with
      toolchain :=
        { s.toolchain with
          assembler := w.expandEnv s.toolchain.assembler
          cc := w.expandEnv s.toolchain.cc } }, w) := rfl

/-- Either the content of a file has been decoded, or that went wrong. -/
theorem run_decodeFile (path : Bytes) : ∃ result,
    (decodeFile decoders path : StateM World _).run w = (result, w) ∧
      ((∃ e, result = .error e ∧ w.Decodes decoders path (.error e)) ∨
        ∃ content raw, result = .ok raw ∧ w.files.readFile w.cwd path = .ok content ∧
          decoders (.ofPath path) content = .ok raw) := by
  rw [decodeFile, World.run_bind, World.run_readFile]
  cases hread : w.files.readFile w.cwd path with
  | error e =>
    cases hformat : FileFormat.ofPath path with
    | yaml => exact ⟨_, rfl, .inl ⟨_, rfl, .unreadYaml hformat hread⟩⟩
    | toml => exact ⟨_, rfl, .inl ⟨_, rfl, .unreadToml hformat hread⟩⟩
  | ok content =>
    simp only
    cases hdecode : decoders (.ofPath path) content with
    | error detail => exact ⟨_, rfl, .inl ⟨_, rfl, .malformed hread hdecode⟩⟩
    | ok raw => exact ⟨_, rfl, .inr ⟨content, raw, rfl, rfl, hdecode⟩⟩

/-- Loading a path reads the file at the path with its variables replaced. -/
theorem run_load (path : Bytes) : ∃ result,
    (load decoders path : StateM World _).run w = (result, w) ∧
      (w.files.stat w.cwd (w.expandEnv path) = .error .noSuchFile ∧
          result = .error (.notFound (w.expandEnv path)) ∨
        w.files.stat w.cwd (w.expandEnv path) ≠ .error .noSuchFile ∧
          w.Decodes decoders (w.expandEnv path) result) := by
  rw [load, World.run_bind, World.run_expandEnv, World.run_bind, World.run_stat]
  generalize w.expandEnv path = q
  simp only
  split
  case h_1 hstat => exact ⟨_, rfl, .inl ⟨hstat, rfl⟩⟩
  case h_2 hstat =>
    obtain ⟨decoded, hrun, herror | hraw⟩ := run_decodeFile decoders w q
    · obtain ⟨e, rfl, hdecodes⟩ := herror
      rw [World.run_bind, hrun]
      exact ⟨_, rfl, .inr ⟨hstat, hdecodes⟩⟩
    · obtain ⟨content, raw, rfl, hread, hdecode⟩ := hraw
      rw [World.run_bind, hrun]
      simp only
      rw [World.run_bind, run_expandTools]
      cases hcheck : (w.completed raw q).validate with
      | error e =>
        refine ⟨.error (.invalid q e), ?_, .inr ⟨hstat, .invalid hread hdecode hcheck⟩⟩
        rw [World.completed] at hcheck
        simp only [hcheck]
        rfl
      | ok =>
        refine ⟨.ok (w.completed raw q), ?_, .inr ⟨hstat, .valid hread hdecode hcheck⟩⟩
        rw [World.completed] at hcheck
        simp only [hcheck]
        rfl

/-! ## Searching -/

theorem looks_searchPaths : World.Looks (searchPaths : StateM World _) := by
  refine (World.Looks.getEnv "HOME").bind fun home => ?_
  split
  · split <;> exact .pure _
  · exact .pure _

theorem run_firstExisting (paths : List Bytes) :
    (firstExisting paths : StateM World _).run w = (paths.find? w.has, w) := by
  induction paths with
  | nil => rfl
  | cons p paths ih =>
    rw [firstExisting, World.run_bind, World.run_stat, List.find?_cons, World.has]
    cases w.files.stat w.cwd p with
    | ok kind => rfl
    | error e => exact ih

/-- Without a file that is asked for or named, the first place where something stands is
    loaded. -/
theorem run_discover {w : World} (h : w.value fileVariable = []) :
    (discover decoders [] : StateM World _).run w =
      match w.searchPaths.find? w.has with
      | some p => (load decoders p : StateM World _).run w
      | none => (.ok Settings.default, w) := by
  have hnamed : ¬(w.env.lookup fileVariable).getD [] ≠ [] := not_not.2 h
  have hlook : (searchPaths : StateM World _).run w = (w.searchPaths, w) :=
    looks_searchPaths.run_eq w
  rw [discover, if_neg (by decide), World.run_bind, World.run_getEnv]
  simp only
  rw [if_neg hnamed, World.run_bind, hlook, World.run_bind, run_firstExisting]
  cases w.searchPaths.find? w.has <;> rfl

/-- Whatever the decoders and whatever the expansion of variables: without a file that is
    asked for or named by the environment, the defaults hold if nothing stands in any of the
    places where settings are looked for. Otherwise `p` is the first place where something
    stands, and `q` is `p` with its variables replaced. The outcome is what comes of the file
    at `q`, and it is about that file: the settings have it as their source, and an error
    names it. Only if nothing stands at `q` the file is not found, and then `q` is not `p`.
    With `Expansion.expand` for the expansion, `q` is `p` in the working directory and in a
    home directory without a dollar sign. -/
theorem discover_reads_expanded {w : World} (h : w.value fileVariable = []) :
    ∃ result, (discover decoders [] : StateM World _).run w = (result, w) ∧
      ((∀ p ∈ w.searchPaths, w.has p = false) → result = .ok Settings.default) ∧
      ∀ p, w.searchPaths.find? w.has = some p → ∃ q, q = w.expandEnv p ∧
        (w.expansion = Expansion.expand →
          p ∈ World.localPaths ∨ Expansion.dollar ∉ w.value "HOME" → q = p) ∧
        (w.files.stat w.cwd q = .error .noSuchFile ∧ q ≠ p ∧ result = .error (.notFound q) ∨
          w.files.stat w.cwd q ≠ .error .noSuchFile ∧ w.Decodes decoders q result ∧
            (∀ s, result = .ok s → s.source? = some q) ∧
            ∀ e, result = .error e → e.IsAbout q) := by
  rw [run_discover decoders h]
  cases hfind : w.searchPaths.find? w.has with
  | none => exact ⟨_, rfl, fun _ => rfl, fun p hp => nomatch hp⟩
  | some p =>
    have hmem : p ∈ w.searchPaths := List.mem_of_find?_eq_some hfind
    have hhas : w.has p = true := List.find?_some hfind
    obtain ⟨result, hrun, hresult⟩ := run_load decoders w p
    refine ⟨result, hrun, fun hnone => ?_, ?_⟩
    · rw [hnone p hmem] at hhas
      cases hhas
    · rintro _ ⟨⟩
      refine ⟨_, rfl, fun hexpansion hdollar => ?_, ?_⟩
      · rw [World.expandEnv, hexpansion]
        exact Expansion.expand_of_not_mem (World.dollar_not_mem_of_mem_searchPaths hmem hdollar)
      · rcases hresult with ⟨hstat, hresult⟩ | ⟨hstat, hdecodes⟩
        · refine .inl ⟨hstat, fun heq => ?_, hresult⟩
          rw [heq] at hstat
          rw [World.has, hstat] at hhas
          cases hhas
        · refine .inr ⟨hstat, hdecodes, ?_, ?_⟩
          · rintro s rfl
            exact hdecodes.source_eq
          · rintro e rfl
            exact hdecodes.isAbout

/-- A host with a file with settings in some home directories. -/
def hostWithHomes (home : Bytes) (homes : List (Bytes × Bytes)) : World where
  files := ⟨homes.flatMap fun (name, content) =>
    [([name], .directory), ([name, ".config"], .directory),
      ([name, ".config", "bfc"], .directory),
      ([name, ".config", "bfc", "config.toml"], .file content false)]⟩
  env := [("HOME", home), ("USER", "x")]

/-- The decoders for files that hold the name of a target and nothing else. -/
def targetOnly : Decoders := fun _ content => .ok { target := content }

/-- The settings in a home directory are read. -/
theorem discover_reads_expanded_home :
    let w := hostWithHomes "/hx" [("hx", "c")]
    let found := { Settings.default with
      target := "c", source? := some "/hx/.config/bfc/config.toml" }
    w.value fileVariable = [] ∧
      w.searchPaths.find? w.has = some "/hx/.config/bfc/config.toml" ∧
      (discover targetOnly [] : StateM World _).run w = (.ok found, w) ∧
      w.Decodes targetOnly "/hx/.config/bfc/config.toml" (.ok found) := by
  intro w found
  have hvalue : w.value fileVariable = [] := by decide
  have hfind : w.searchPaths.find? w.has = some "/hx/.config/bfc/config.toml" := by
    decide +kernel
  have hok : ((discover targetOnly [] : StateM World _).run w).1 = .ok found := by decide +kernel
  obtain ⟨result, hrun, -, hfound⟩ := discover_reads_expanded targetOnly hvalue
  obtain ⟨q, -, hsame, hresult⟩ := hfound _ hfind
  obtain rfl := hsame rfl (.inr (by decide))
  obtain rfl : result = .ok found := (congrArg Prod.fst hrun).symm.trans hok
  rcases hresult with ⟨-, hne, -⟩ | ⟨-, hdecodes, -⟩
  · exact absurd rfl hne
  · exact ⟨hvalue, hfind, hrun, hdecodes⟩

/-- With a dollar sign in the name of the home directory, the settings that are found there
    are not read: there is no file at the path with its variables replaced, or the settings
    are those of that other file. -/
theorem discover_misses_home :
    let alone := hostWithHomes "/h$USER" [("h$USER", "c")]
    let both := hostWithHomes "/h$USER" [("h$USER", "c"), ("hx", "asm")]
    (alone.value fileVariable = [] ∧
      alone.searchPaths.find? alone.has = some "/h$USER/.config/bfc/config.toml" ∧
      ((discover targetOnly [] : StateM World _).run alone).1 =
        .error (.notFound "/hx/.config/bfc/config.toml")) ∧
    both.value fileVariable = [] ∧
      both.searchPaths.find? both.has = some "/h$USER/.config/bfc/config.toml" ∧
      ((discover targetOnly [] : StateM World _).run both).1 =
        .ok { Settings.default with source? := some "/hx/.config/bfc/config.toml" } := by
  decide +kernel

end Settings

end TapeCompiler
