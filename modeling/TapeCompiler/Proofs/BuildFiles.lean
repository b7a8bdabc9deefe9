import TapeCompiler.Proofs.ExecutableBuild
import TapeCompiler.Proofs.Lexeme
import TapeCompiler.Proofs.Paths
import TapeCompiler.Proofs.TokenPositions

/-!
# The files of a build and their names

The intermediate files of a build differ from each other, but nothing looks whether one
of them is the source or the output. A kept object is the output if that ends in `.o`,
and any of them is the source if that has the right name (`BuildPaths.plan_collisions`).
Temporary files are never the output, because they do not have its name
(`BuildPaths.base_intermediateStem_ne`).

A build of an executable spares every place that none of its intermediate files leads
to and that its tools spare (`Workshop.sparing_run`). So what it compiles is lost only to
an intermediate file that is the source, or to a tool.
-/

namespace TapeCompiler

/-! ## Names -/

namespace BuildPaths

theorem temporaryDirectory_ne (tmpdir : Bytes) : temporaryDirectory tmpdir ≠ [] := by
  rw [temporaryDirectory]
  split
  case isTrue => decide
  case isFalse h => rwa [List.isEmpty_iff] at h

theorem slash_not_mem_toString (n : Int) : Path.slash ∉ Bytes.ofString (toString n) := by
  have hdigits : ∀ k : Nat, '/' ∉ k.repr.toList := by
    intro k h
    cases Lexeme.isDigit_of_mem_toString h
  rw [Bytes.mem_ofString_iff (by decide), Int.toString_eq_repr, Int.repr_eq_if]
  split
  · exact hdigits _
  · rw [String.toList_append, List.mem_append, not_or]
    exact ⟨by decide, hdigits _⟩

theorem ofString_underscore : Bytes.ofString "_" = [0x5F] := by decide

theorem isName_underscore {b digits : Bytes} (hb : Path.slash ∉ b) (hdigits : Path.slash ∉ digits) :
    Path.IsName (b ++ "_" ++ digits) := by
  have hmem : 0x5F ∈ b ++ Bytes.ofString "_" ++ digits := by simp [ofString_underscore]
  refine ⟨List.ne_nil_of_mem hmem, ?_, ?_, ?_⟩
  · intro h
    rw [h] at hmem
    exact absurd hmem (by decide)
  · intro h
    rw [h] at hmem
    exact absurd hmem (by decide)
  · have hunderscore : Path.slash ∉ Bytes.ofString "_" := by decide
    simp [hb, hdigits, hunderscore]

/-- What temporary files start with, before it is cleaned. -/
theorem intermediateStem_temporary (output : Bytes) (seconds : Int) (tmpdir : Bytes) :
    intermediateStem output false seconds tmpdir = Path.clean (temporaryDirectory tmpdir ++
      Path.slash :: (Path.base (Path.stem output) ++ "_" ++ toString seconds)) := by
  rw [intermediateStem, if_neg (by decide)]
  exact Path.join_pair (temporaryDirectory_ne tmpdir) (by simp [ofString_underscore])

/-- The temporary files do not have the name of the output. -/
theorem base_intermediateStem_ne (output : Bytes) (seconds : Int) (tmpdir : Bytes) :
    Path.base (intermediateStem output false seconds tmpdir) ≠ Path.base (Path.stem output) := by
  have hdigits := slash_not_mem_toString seconds
  have hslash := Path.base_eq_or_not_mem (Path.stem output)
  rw [intermediateStem_temporary]
  generalize Path.base (Path.stem output) = name at hslash ⊢
  rcases hslash with rfl | hslash
  · -- The root adds an empty element, which is cleaned away, and so is no part of the name.
    have hclean : Path.base (Path.clean ((temporaryDirectory tmpdir ++ [Path.slash]) ++
        Path.slash :: (([] : Bytes) ++ "_" ++ toString seconds))) = _ :=
      Path.base_clean (by simp) (isName_underscore List.not_mem_nil hdigits)
    rw [List.append_assoc] at hclean
    refine fun h => absurd (hclean.symm.trans h) ?_
    rw [ofString_underscore]
    exact fun h => absurd (List.cons.inj h).1 (by decide)
  · rw [Path.base_clean (temporaryDirectory_ne tmpdir) (isName_underscore hslash hdigits),
      ofString_underscore]
    simp

theorem isExt_assembly : Path.IsExt ".S" := ⟨"S", by decide, by decide, by decide⟩

theorem isExt_cSource : Path.IsExt ".c" := ⟨"c", by decide, by decide, by decide⟩

theorem isExt_object : Path.IsExt ".o" := ⟨"o", by decide, by decide, by decide⟩

/-- An output with the extension of a text is no executable. -/
theorem ext_ne_of_infer {output : Bytes}
    (h : OutputKind.infer output false false = .ok .executable) :
    Path.ext output ≠ ".S" ∧ Path.ext output ≠ ".c" := by
  have hkind : OutputKind.ofOutput output = .executable := Except.ok.inj h
  rw [OutputKind.ofOutput] at hkind
  constructor
  · intro hext
    rw [hext, if_pos (by decide +kernel)] at hkind
    cases hkind
  · intro hext
    rw [hext, if_neg (by decide +kernel), if_pos (by decide +kernel)] at hkind
    cases hkind

/-- The intermediate stem is that of the output if the files are kept, and only then. -/
theorem stem_eq_intermediateStem_iff {output : Bytes} {keep : Bool} {seconds : Int} {tmpdir : Bytes} :
    Path.stem output = intermediateStem output keep seconds tmpdir ↔ keep = true := by
  cases keep with
  | true => simp [intermediateStem]
  | false =>
    simp only [Bool.false_eq_true, iff_false]
    exact fun h => base_intermediateStem_ne output seconds tmpdir (congrArg Path.base h).symm

end BuildPaths

/-! ## Places that are spared -/

namespace FileTree

variable {t t' : FileTree} {cwd place : Place} {path : Bytes}

/-- The path leads to the place, whether or not something is there. -/
def Leads (t : FileTree) (cwd : Place) (path : Bytes) (place : Place) : Prop :=
  ∃ s, t.lastStep cwd path = .ok s ∧ descend s.parent s.name = place

theorem not_leads {s : LastStep} (hs : t.lastStep cwd path = .ok s)
    (hplace : descend s.parent s.name ≠ place) : ¬t.Leads cwd path place := by
  rintro ⟨s', hs', hplace'⟩
  cases hs.symm.trans hs'
  exact hplace hplace'

/-- The second tree has the same at the place, and no directories of its own, through which
    more paths could lead there. -/
structure Spares (place : Place) (t t' : FileTree) : Prop where
  directories : ∀ p, t'.get? p = some .directory → t.get? p = some .directory
  same : t'.get? place = t.get? place

namespace Spares

protected theorem refl (place : Place) (t : FileTree) : Spares place t t where
  directories _ h := h
  same := rfl

protected theorem trans {t'' : FileTree} (h : Spares place t t') (h' : Spares place t' t'') :
    Spares place t t'' where
  directories p hp := h.directories p (h'.directories p hp)
  same := h'.same.trans h.same

theorem leads (h : Spares place t t') {p : Place} (hleads : t'.Leads cwd path p) :
    t.Leads cwd path p := by
  obtain ⟨s, hs, hp⟩ := hleads
  exact ⟨s, lastStep_of_directories h.directories hs, hp⟩

theorem writeFile {content : Bytes} (hpath : ¬t.Leads cwd path place)
    (h : t.writeFile cwd path content = .ok t') : Spares place t t' := by
  have hdirs := sameDirectories_writeFile h
  obtain ⟨s, executable, hs, -, -, rfl⟩ := writeFile_eq_ok h
  -- The one place that changes is where the path leads.
  refine ⟨fun p => (hdirs p).2, get?_put_of_ne ?_⟩
  rintro rfl
  exact hpath ⟨s, hs, rfl⟩

theorem removed (hpath : ¬t.Leads cwd path place) : Spares place t (t.removed cwd path) := by
  refine ⟨fun p => below_removed t cwd path p .directory, ?_⟩
  rcases removed_cases t cwd path with ⟨h, -⟩ | ⟨place', e, hfind, h⟩
  · rw [h]
  · obtain ⟨s, hs, hplace', -⟩ := find_eq_ok_iff.1 hfind
    rw [h, get?_erase_of_ne]
    rintro rfl
    exact hpath ⟨s, hs, hplace'⟩

end Spares

end FileTree

namespace World

variable {place : Place} {start s s' : World}

/-- Nothing that concerns the place has changed. -/
structure Spares (place : Place) (s s' : World) : Prop where
  cwd : s'.cwd = s.cwd
  behaviour : s'.behaviour = s.behaviour
  files : s.files.Spares place s'.files

/-- The computation spares the place, if all before it did. -/
def Sparing {α : Type} (start : World) (place : Place) (x : StateM World α) : Prop :=
  ∀ s, start.Spares place s → start.Spares place (x.run s).2

/-- The tools, called in this way, spare the place. -/
def ToolsSpare (start : World) (place : Place) (tools : List Invocation) : Prop :=
  ∀ i ∈ tools, ∀ content program, start.behaviour content = some program →
    ∀ files, start.files.Spares place files → files.Spares place (program files start.cwd i.args).1

protected theorem Spares.refl (place : Place) (s : World) : Spares place s s :=
  ⟨rfl, rfl, .refl place s.files⟩

theorem Spares.step (h : Spares place start s) {files : FileTree}
    (hfiles : s.files.Spares place files) (runs : List ProgramRun) :
    Spares place start { s with files, runs } :=
  ⟨h.cwd, h.behaviour, h.files.trans hfiles⟩

theorem Spares.not_leads (h : Spares place start s) {path : Bytes}
    (hpath : ¬start.files.Leads start.cwd path place) : ¬s.files.Leads s.cwd path place := by
  rw [h.cwd]
  exact fun hleads => hpath (h.files.leads hleads)

namespace Sparing

variable {α β : Type} {x : StateM World α} {f : α → StateM World β}

protected theorem pure (a : α) : Sparing start place (pure a : StateM World α) :=
  fun _ h => h

protected theorem bind (hx : Sparing start place x) (hf : ∀ a, Sparing start place (f a)) :
    Sparing start place (x >>= f) :=
  fun s h => hf _ _ (hx s h)

theorem of_looks (hx : Looks x) : Sparing start place x := by
  intro s h
  rw [hx.run_eq s]
  exact h

theorem now : Sparing start place (Host.now : StateM World _) :=
  fun _ h => h

theorem readFile (path : Bytes) : Sparing start place (Host.readFile path : StateM World _) :=
  fun _ h => h

theorem write (l : Log.Logger) (level : Log.Level) (message : String)
    (attributes : List (String × Log.Value)) :
    Sparing start place (l.write level message attributes : StateM World _) := by
  intro s h
  obtain ⟨err, herr⟩ := l.exists_run_write level message attributes s
  rw [herr]
  exact ⟨h.cwd, h.behaviour, h.files⟩

theorem writeFile {path : Bytes} (hpath : ¬start.files.Leads start.cwd path place) (content : Bytes) :
    Sparing start place (Host.writeFile path content : StateM World _) := by
  intro s h
  change Spares place start (s.update (s.files.writeFile s.cwd path content)).2
  cases hwrite : s.files.writeFile s.cwd path content with
  | error e => exact h
  | ok files => exact h.step (.writeFile (h.not_leads hpath) hwrite) s.runs

theorem remove {path : Bytes} (hpath : ¬start.files.Leads start.cwd path place) :
    Sparing start place (Host.remove path : StateM World _) := by
  intro s h
  -- A removal that is refused leaves the files as they are, and so does `removed`.
  have hremoved : ((Host.remove path : StateM World _).run s).2 =
      { s with files := s.files.removed s.cwd path } := by
    change (s.update (s.files.remove s.cwd path)).2 = _
    rw [FileTree.removed]
    cases s.files.remove s.cwd path <;> rfl
  rw [hremoved]
  exact h.step (.removed (h.not_leads hpath)) s.runs

theorem execute {tools : List Invocation} (htools : start.ToolsSpare place tools) {i : Invocation}
    (hi : i ∈ tools) (path : Bytes) :
    Sparing start place (Host.execute path i.args : StateM World _) := by
  intro s h
  change Spares place start (s.execute path i.args).2
  rw [World.execute]
  split
  case h_1 | h_2 | h_3 => exact h
  case h_4 content _ =>
    split
    case h_1 => exact h
    case h_2 program hprogram =>
      rw [h.behaviour] at hprogram
      have hfiles := htools i hi content program hprogram s.files h.files
      rw [← h.cwd] at hfiles
      exact h.step hfiles _

end Sparing

end World

namespace Workshop

open World

variable (w : Workshop) {j : Job} {place : Place} {start : World} {tools : List Invocation}

theorem sparing_report (text : Bytes) : Sparing start place (w.report text) := by
  rw [report]
  split
  · exact fun s h => ⟨h.cwd, h.behaviour, h.files⟩
  · exact .pure ()

theorem sparing_attempt (htools : start.ToolsSpare place tools) {i : Invocation} (hi : i ∈ tools) :
    Sparing start place (w.attempt i) := by
  rw [attempt]
  refine (Sparing.of_looks (Looks.locate i.program)).bind fun r => ?_
  split
  · exact .pure _
  · exact .pure _
  · split
    · exact .pure _
    · refine (Sparing.execute htools hi _).bind fun r => ?_
      cases r <;> exact .pure _

theorem sparing_runTool (htools : start.ToolsSpare place tools) {i : Invocation} (hi : i ∈ tools) :
    Sparing start place (w.runTool i) := by
  rw [runTool]
  refine (Sparing.write _ _ _ _).bind fun _ => (w.sparing_report _).bind fun _ =>
    (w.sparing_attempt htools hi).bind fun r => ?_
  cases r <;> exact (w.sparing_report _).bind fun _ => .pure _

theorem sparing_runTools (htools : start.ToolsSpare place tools) :
    Sparing start place (w.runTools tools) := by
  -- The tools that are left are called in the same way as all of them.
  suffices ∀ rest, (∀ i ∈ rest, i ∈ tools) → Sparing start place (w.runTools rest) from
    this tools fun _ => id
  intro rest hrest
  induction rest with
  | nil => exact .pure _
  | cons i rest ih =>
    rw [runTools]
    refine (w.sparing_runTool htools (hrest i List.mem_cons_self)).bind fun r => ?_
    cases r with
    | error e => exact .pure _
    | ok => exact ih fun i hi => hrest i (List.mem_cons_of_mem _ hi)

theorem sparing_cleanUp {paths : List Bytes}
    (hpaths : ∀ path ∈ paths, ¬start.files.Leads start.cwd path place) :
    Sparing start place (w.cleanUp paths) := by
  induction paths with
  | nil => exact .pure _
  | cons path paths ih =>
    have hrest := ih fun path hpath => hpaths path (List.mem_cons_of_mem _ hpath)
    rw [cleanUp]
    refine (Sparing.remove (hpaths path List.mem_cons_self)).bind fun r => ?_
    split
    · exact hrest
    · split
      · exact (Sparing.write _ _ _ _).bind fun _ => hrest
      · exact hrest

theorem sparing_parse (source : Bytes) : Sparing start place (w.parse source) := by
  rw [parse]
  refine (Sparing.readFile source).bind fun r => ?_
  split
  · split <;> exact .pure _
  · refine Sparing.now.bind fun begin => ?_
    split
    · exact .pure _
    · exact Sparing.now.bind fun stop => (Sparing.write _ _ _ _).bind fun _ => .pure _

theorem sparing_generate (j : Job) (p : Program) : Sparing start place (w.generate j p) := by
  rw [generate]
  refine Sparing.now.bind fun begin => ?_
  split
  · exact .pure _
  · exact Sparing.now.bind fun stop => (Sparing.write _ _ _ _).bind fun _ => .pure _

theorem sparing_writeText {path : Bytes} (hpath : ¬start.files.Leads start.cwd path place)
    (text : String) : Sparing start place (writeText path text) := by
  rw [writeText]
  refine (Sparing.writeFile hpath _).bind fun r => ?_
  cases r <;> exact .pure _

variable (htools : start.ToolsSpare place (j.pipeline w.toolchain))
  (hpaths : ∀ path ∈ j.paths.intermediates j.backend.extension,
    ¬start.files.Leads start.cwd path place)
include htools hpaths

theorem sparing_makeExecutable (text : String) : Sparing start place (w.makeExecutable j text) := by
  have hgenerated : j.intermediate ∈ j.paths.intermediates j.backend.extension := by
    rw [Job.intermediate, BuildPaths.intermediates]
    split <;> exact List.mem_cons_self
  rw [makeExecutable]
  refine (sparing_writeText (hpaths _ hgenerated) text).bind fun r => ?_
  split
  · exact .pure _
  · refine (w.sparing_runTools htools).bind fun r => ?_
    split
    · exact (w.sparing_cleanUp hpaths).bind fun _ => .pure _
    · exact .pure _

/-- A build of an executable spares a place, if its tools do and none of its intermediate
    files leads there. -/
theorem sparing_run (hkind : j.kind = .executable) : Sparing start place (w.run j) := by
  rw [run]
  refine (w.sparing_parse _).bind fun r => ?_
  split
  · exact .pure _
  · refine (w.sparing_generate j _).bind fun r => ?_
    split
    · exact .pure _
    · rw [if_pos hkind]
      exact w.sparing_makeExecutable htools hpaths _

end Workshop

/-- A scripted tool that makes no directories spares all places but that of its output. -/
theorem ScriptedTool.spares {tool : ScriptedTool} (h : tool.makesDirectory = false) {place cwd : Place}
    {args : List Bytes} {files : FileTree} (hargs : ¬files.Leads cwd (args.getD 2 []) place) :
    files.Spares place (tool.behaviour files cwd args).1 := by
  rcases files_cases h files cwd args with hsame | ⟨content, hwrite⟩
  · rw [hsame]
    exact .refl place files
  · exact .writeFile hargs hwrite

/-! ## Collisions -/

/-- Some tool gets one file as its input and its output only if the object is the output. -/
theorem Job.exists_args_eq_iff {j : Job} (t : Toolchain) (hassembly : j.paths.assembly ≠ j.paths.object)
    (hc : j.paths.cSource ≠ j.paths.output) :
    (∃ i ∈ j.pipeline t, i.args[0]? = i.args[2]?) ↔
      j.paths.object = j.paths.output ∧ j.backend.extension ≠ ".c" := by
  rw [pipeline]
  split
  case isTrue hext => simp [hext, hc]
  case isFalse hext => simp [hext, hassembly]

namespace BuildPaths

/-- A file that starts like the intermediate files, by what it is put together from. -/
theorem intermediateStem_append_eq_iff {e path : Bytes} (he : Path.IsExt e) {output : Bytes}
    {keep : Bool} {seconds : Int} {tmpdir : Bytes} :
    intermediateStem output keep seconds tmpdir ++ e = path ↔
      Path.stem path = intermediateStem output keep seconds tmpdir ∧ Path.ext path = e := by
  rw [eq_comm, Path.eq_append_iff he]

/-- In a build of an executable the intermediate files differ from each other. The output is
    neither the assembly nor the C source, and it is the object if that is kept and the output
    ends in `.o`; then, and only then, the linker is told to write over what it reads. The
    source is one of the intermediate files if it has its name and extension. Nothing but an
    intermediate file that leads to the same place, or a tool, takes away what is compiled. -/
theorem plan_collisions {output : Bytes}
    (hkind : OutputKind.infer output false false = .ok .executable)
    (source : Bytes) (keep : Bool) (seconds : Int) (tmpdir : Bytes) :
    let p := plan source output keep seconds tmpdir
    let stem := intermediateStem output keep seconds tmpdir
    (p.assembly ≠ p.cSource ∧ p.assembly ≠ p.object ∧ p.cSource ≠ p.object) ∧
    (p.assembly ≠ p.output ∧ p.cSource ≠ p.output ∧
      (p.object = p.output ↔ keep = true ∧ Path.ext output = ".o")) ∧
    ((p.assembly = p.source ↔ Path.stem source = stem ∧ Path.ext source = ".S") ∧
      (p.cSource = p.source ↔ Path.stem source = stem ∧ Path.ext source = ".c") ∧
      (p.object = p.source ↔ Path.stem source = stem ∧ Path.ext source = ".o")) ∧
    ∀ (w : Workshop) (j : Job), j.paths = p → j.kind = .executable →
      ((∃ i ∈ j.pipeline w.toolchain, i.args[0]? = i.args[2]?) ↔
        (keep = true ∧ Path.ext output = ".o") ∧ j.backend.extension ≠ ".c") ∧
      ∀ (world : World) (place : Place) (content : Bytes) (executable : Bool),
        world.files.find world.cwd source = .ok (place, .file content executable) →
        (∀ path ∈ p.intermediates j.backend.extension, ¬world.files.Leads world.cwd path place) →
        world.ToolsSpare place (j.pipeline w.toolchain) →
        ((w.run j : StateM World _).run world).2.files.get? place =
          some (.file content executable) := by
  intro p stem
  obtain ⟨hS, hc⟩ := ext_ne_of_infer hkind
  have hassembly : p.assembly ≠ p.object :=
    Path.append_ne isExt_assembly isExt_object (by decide) stem stem
  -- With the extension of a text, the output would be one.
  have hcSource : p.cSource ≠ p.output :=
    fun h => hc ((intermediateStem_append_eq_iff isExt_cSource).1 h).2
  -- The object meets the output only in the directory and under the name of the output.
  have hobject : p.object = p.output ↔ keep = true ∧ Path.ext output = ".o" :=
    (intermediateStem_append_eq_iff isExt_object).trans (and_congr_left' stem_eq_intermediateStem_iff)
  refine ⟨⟨?_, hassembly, ?_⟩, ⟨?_, hcSource, hobject⟩,
    ⟨intermediateStem_append_eq_iff isExt_assembly, intermediateStem_append_eq_iff isExt_cSource,
      intermediateStem_append_eq_iff isExt_object⟩, ?_⟩
  · exact Path.append_ne isExt_assembly isExt_cSource (by decide) stem stem
  · exact Path.append_ne isExt_cSource isExt_object (by decide) stem stem
  · exact fun h => hS ((intermediateStem_append_eq_iff isExt_assembly).1 h).2
  · intro w j hpaths hexecutable
    rw [← hpaths] at hassembly hcSource hobject ⊢
    refine ⟨by rw [Job.exists_args_eq_iff _ hassembly hcSource, hobject], ?_⟩
    intro world place content executable hsource hleads htools
    obtain ⟨-, -, -, hheld, -⟩ := FileTree.find_eq_ok_iff.1 hsource
    have hspared := w.sparing_run htools hleads hexecutable world (.refl place world)
    rw [hspared.files.same, hheld]

/-- If `prog.o` is made from `prog.S` and intermediate files are kept, the assembly is the
    source and the object is the output. If they are temporary, a source among them is removed
    with them. -/
theorem plan_takes_source :
    let kept := plan "prog.S" "prog.o" true 1700000000 "/tmp"
    let temporary := plan "/tmp/prog_1700000000.S" "prog" false 1700000000 "/tmp"
    let world : World := {
      files := ⟨[(["tmp"], .directory), (["tmp", "prog_1700000000.S"], .file [0x2B] false)]⟩ }
    let job : Job := { paths := temporary, kind := .executable }
    let shop : Workshop := { toolchain := .default }
    (OutputKind.infer "prog.o" false false = .ok .executable ∧ kept.assembly = kept.source ∧
      kept.object = kept.output) ∧
    OutputKind.infer "prog" false false = .ok .executable ∧ temporary.assembly = temporary.source ∧
      ((shop.run job : StateM World _).run world).2.files.get? ["tmp", "prog_1700000000.S"] = none := by
  decide +kernel

/-- With temporary files neither is the case, and the build goes through. -/
theorem plan_collisions_temporary :
    let p := plan "prog.S" "prog.o" false 1700000000 "/tmp"
    let world : World := {
      files := ⟨[(["bin"], .directory), (["bin", "as"], .file [0x61] true),
        (["bin", "gcc"], .file [0x67] true), (["tmp"], .directory), (["prog.S"], .file [0x2B] false)]⟩
      env := [("PATH", "/bin")]
      behaviour := fun content =>
        if content = [0x61] then some (ScriptedTool.behaviour { name := "as" })
        else if content = [0x67] then some (ScriptedTool.behaviour { name := "gcc" })
        else none }
    let job : Job := { paths := p, kind := .executable }
    let shop : Workshop := { toolchain := .default }
    OutputKind.infer "prog.o" false false = .ok .executable ∧
      p.object ≠ p.output ∧ p.assembly ≠ p.source ∧ p.object ≠ p.source ∧
      (¬∃ i ∈ job.pipeline shop.toolchain, i.args[0]? = i.args[2]?) ∧
      ((shop.run job : StateM World _).run world).2.files.get? ["prog.S"] = some (.file [0x2B] false) ∧
      ((shop.run job : StateM World _).run world).2.files.get? ["prog.o"] =
        some (.file (Bytes.ofString "built by gcc\n") false) := by
  intro p world job shop
  have hkind : OutputKind.infer "prog.o" false false = .ok .executable := by decide +kernel
  obtain ⟨-, ⟨-, -, hobject⟩, ⟨hassembly, -, hobject'⟩, hruns⟩ :=
    plan_collisions hkind "prog.S" false 1700000000 "/tmp"
  obtain ⟨hargs, hsource⟩ := hruns shop job rfl rfl
  have hstem : Path.stem "prog.S" ≠ intermediateStem "prog.o" false 1700000000 "/tmp" := by
    decide +kernel
  have hleads : ∀ path ∈ [p.assembly, p.object, p.output],
      ¬world.files.Leads world.cwd path ["prog.S"] := by
    have hsteps : ∀ path ∈ [p.assembly, p.object, p.output], ∃ s,
        world.files.lastStep world.cwd path = .ok s ∧
          FileTree.descend s.parent s.name ≠ ["prog.S"] := by
      intro path hpath
      simp only [List.mem_cons, List.not_mem_nil, or_false] at hpath
      rcases hpath with rfl | rfl | rfl
      · exact ⟨⟨["tmp"], "prog_1700000000.S", false⟩, by decide +kernel⟩
      · exact ⟨⟨["tmp"], "prog_1700000000.o", false⟩, by decide +kernel⟩
      · exact ⟨⟨[], "prog.o", false⟩, by decide +kernel⟩
    intro path hpath
    obtain ⟨s, hs, hplace⟩ := hsteps path hpath
    exact FileTree.not_leads hs hplace
  have hwrites : ∀ i ∈ job.pipeline shop.toolchain,
      i.args.getD 2 [] ∈ [p.assembly, p.object, p.output] := by
    decide +kernel
  have htools : world.ToolsSpare ["prog.S"] (job.pipeline shop.toolchain) := by
    intro i hi content program hprogram files hfiles
    have hargs : ¬files.Leads world.cwd (i.args.getD 2 []) ["prog.S"] :=
      fun h => hleads _ (hwrites i hi) (hfiles.leads h)
    simp only [world] at hprogram
    split at hprogram
    · cases hprogram
      exact ScriptedTool.spares rfl hargs
    · split at hprogram
      · cases hprogram
        exact ScriptedTool.spares rfl hargs
      · cases hprogram
  refine ⟨hkind, ?_, ?_, ?_, ?_, ?_, by decide +kernel⟩
  · exact fun h => absurd (hobject.1 h).1 (by decide)
  · exact fun h => hstem (hassembly.1 h).1
  · exact fun h => hstem (hobject'.1 h).1
  · exact fun h => absurd (hargs.1 h).1.1 (by decide)
  · refine hsource world ["prog.S"] [0x2B] false (by decide +kernel) (fun path hpath => ?_) htools
    exact hleads path (List.mem_append_left [p.output] hpath)

end BuildPaths

end TapeCompiler
