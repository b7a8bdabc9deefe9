import TapeCompiler.Host.ScriptedTool
import TapeCompiler.Proofs.Lowering
import TapeCompiler.Proofs.Parsing
import TapeCompiler.Proofs.ToolRuns

/-!
# Builds of executables

A build that reads, parses and generates changes nothing but the streams
(`Workshop.run_parse`, `Workshop.run_generate`). For an executable it then writes the
generated text, runs the tools of a recipe (`Recipe.assembly`, `Recipe.c`) and removes the
intermediate files, unless they are to be kept. It removes them whatever became of the
tools.

That is `Workshop.run_executable`: what was called, what the result is, what was told,
and which files are left.
-/

namespace TapeCompiler

/-! ## Recipes -/

/-- What it takes to make an executable. -/
structure Recipe where
  /-- The file for the generated text. -/
  generated : Bytes
  tools : List Invocation
  intermediates : List Bytes

namespace Recipe

/-- By way of assembly: the assembler makes an object, which is then linked. -/
def assembly (p : BuildPaths) (t : Toolchain) : Recipe where
  generated := p.assembly
  tools := [⟨t.assembler, [p.assembly, "-o", p.object] ++ t.asFlags⟩,
    ⟨t.cc, [p.object, "-o", p.output] ++ t.cFlags⟩]
  intermediates := [p.assembly, p.object]

/-- By way of C, which one call compiles and links. -/
def c (p : BuildPaths) (t : Toolchain) (optimized : Bool) : Recipe where
  generated := p.cSource
  tools :=
    let optimize : List Bytes := if optimized then ["-O2"] else []
    [⟨t.cc, [p.cSource, "-o", p.output] ++ optimize ++ t.cFlags⟩]
  intermediates := [p.cSource]

end Recipe

/-- The recipe for a job. -/
inductive Job.Follows (j : Job) (t : Toolchain) : Recipe → Prop
  | assembly : j.backend = Assembly.target → Follows j t (.assembly j.paths t)
  | c : j.backend = C.target → Follows j t (.c j.paths t j.optimized)

theorem Job.Follows.eq {j : Job} {t : Toolchain} {r : Recipe} (h : j.Follows t r) :
    j.intermediate = r.generated ∧ j.pipeline t = r.tools ∧
      j.paths.intermediates j.backend.extension = r.intermediates := by
  cases h with
  | assembly hbackend =>
    rw [Job.intermediate, Job.pipeline, BuildPaths.intermediates, hbackend]
    exact ⟨rfl, rfl, rfl⟩
  | c hbackend =>
    rw [Job.intermediate, Job.pipeline, BuildPaths.intermediates, hbackend]
    exact ⟨rfl, rfl, rfl⟩

theorem Recipe.generated_mem {j : Job} {t : Toolchain} {r : Recipe} (h : j.Follows t r) :
    r.generated ∈ r.intermediates := by
  cases h with
  | assembly | c => exact List.mem_cons_self

/-! ## The steps of a build -/

namespace Workshop

variable (w : Workshop)

/-- Removing files changes no more than the files and the log. -/
theorem run_cleanUp (paths : List Bytes) (s : World) : ∃ log,
    (w.cleanUp paths : StateM World _).run s =
      ((), { s with files := s.files.removeAll s.cwd paths }.say [] log) := by
  induction paths generalizing s with
  | nil => exact ⟨[], by rw [World.say_nil]; rfl⟩
  | cons path paths ih =>
    have hremove : (Host.remove path : StateM World _).run s = s.update (s.files.remove s.cwd path) := rfl
    rw [cleanUp, World.run_bind, hremove, FileTree.removeAll, List.foldl_cons, FileTree.removed]
    cases s.files.remove s.cwd path with
    | ok files => exact ih _
    | error e =>
      -- The files are as they were; a line of the log may say so.
      simp only [World.update]
      split
      · obtain ⟨log, hlog⟩ := w.logger.exists_run_write_bind .warn "failed to remove intermediate file"
          [("file", .text path), ("err", .text e.message)] _ s
        obtain ⟨log', hrest⟩ := ih (s.say [] log)
        exact ⟨log ++ log', (hlog.trans hrest).trans
          (congrArg (Prod.mk ()) (World.say_say { s with files := _ } [] log [] log'))⟩
      · exact ih s

/-- A source that can be read and parsed. -/
theorem run_parse {source : Bytes} {src : Bytes} {program : Program} {s : World}
    (hsrc : s.files.readFile s.cwd source = .ok src)
    (hparse : Program.parse (.ofBytes source.text src) = .ok program) :
    ∃ log, (w.parse source : StateM World _).run s = (.ok program, s.say [] log) := by
  have hread : (Host.readFile source : StateM World _).run s = (.ok src, s) := by
    rw [← hsrc]
    rfl
  have hnow : (Host.now : StateM World _).run s = (s.now, s) := rfl
  rw [parse, World.run_bind, hread]
  simp only
  rw [World.run_bind, hnow]
  simp only [hparse]
  rw [World.run_bind, hnow]
  exact w.logger.exists_run_write_bind ..

theorem run_generate {j : Job} {program : Program} {text : String} {s : World}
    (htext : program.generate ⟨j.backend, j.optimized⟩ j.labels = .ok text) :
    ∃ log, (w.generate j program : StateM World _).run s = (.ok text, s.say [] log) := by
  have hnow : (Host.now : StateM World _).run s = (s.now, s) := rfl
  rw [generate, World.run_bind, hnow]
  simp only [htext]
  rw [World.run_bind, hnow]
  exact w.logger.exists_run_write_bind ..

theorem run_writeText {path : Bytes} {text : String} {files : FileTree} {s : World}
    (hwrite : s.files.writeFile s.cwd path text = .ok files) :
    (writeText path text : StateM World _).run s = (.ok (), { s with files }) := by
  have hfile : (Host.writeFile path text : StateM World _).run s =
      (.ok (), { s with files }) := by
    change s.update _ = _
    rw [hwrite]
    rfl
  rw [writeText, World.run_bind, hfile]
  rfl

variable {w} (hcancelled : w.cancelled = false)
include hcancelled

/-- The tools run on what was written, and then the intermediate files go, unless they are
    kept. -/
theorem run_makeExecutable {j : Job} {text : String} {files : FileTree} {s : World}
    (hwrite : s.files.writeFile s.cwd j.intermediate text = .ok files)
    (out err : Bytes) :
    ∃ trace result stop log, ToolRuns { s with files } (j.pipeline w.toolchain) trace result stop ∧
      (w.makeExecutable j text : StateM World _).run (s.say out err) =
        (result, { stop with
          files := if j.paths.keep then stop.files
            else stop.files.removeAll stop.cwd (j.paths.intermediates j.backend.extension)
          }.say (out ++ w.told trace) (err ++ log)) := by
  obtain ⟨trace, result, stop, log, hruns, hrun⟩ :=
    run_runTools hcancelled (j.pipeline w.toolchain) { s with files } out err
  have hwritten : (writeText j.intermediate text : StateM World _).run (s.say out err) =
      (.ok (), { s with files }.say out err) := run_writeText hwrite
  rw [makeExecutable, World.run_bind, hwritten]
  simp only
  rw [World.run_bind, hrun]
  cases hkeep : j.paths.keep with
  | true => exact ⟨trace, result, stop, log, hruns, rfl⟩
  | false =>
    obtain ⟨log', hclean⟩ := w.run_cleanUp (j.paths.intermediates j.backend.extension)
      (stop.say (out ++ w.told trace) (err ++ log))
    refine ⟨trace, result, stop, log ++ log', hruns, ?_⟩
    simp only [Bool.not_false, if_true]
    rw [World.run_bind, hclean, ← List.append_assoc]
    refine congrArg (Prod.mk result)
      ((World.say_say { stop with files := _ } (out ++ w.told trace) (err ++ log) [] log').trans ?_)
    rw [List.append_nil]
    rfl

variable {j : Job} {r : Recipe} {world : World} {src : Bytes} {program : Program} {text : String}
  {files : FileTree}

/-- The result of a build and the world after it, in terms of what the tools did. -/
theorem run_run (hkind : j.kind = .executable) (hrecipe : j.Follows w.toolchain r)
    (hsrc : world.files.readFile world.cwd j.paths.source = .ok src)
    (hparse : Program.parse (.ofBytes j.paths.source.text src) = .ok program)
    (htext : program.generate ⟨j.backend, j.optimized⟩ j.labels = .ok text)
    (hwrite : world.files.writeFile world.cwd r.generated text = .ok files) :
    ∃ trace result stop log, ToolRuns { world with files } r.tools trace result stop ∧
      (w.run j : StateM World _).run world =
        (result, { stop with
          files := if j.paths.keep then stop.files else stop.files.removeAll stop.cwd r.intermediates
          }.say (w.told trace) log) := by
  obtain ⟨hgenerated, htools, hintermediates⟩ := hrecipe.eq
  rw [← hgenerated] at hwrite
  obtain ⟨log, hparsed⟩ := w.run_parse hsrc hparse
  obtain ⟨log', hgenerate⟩ := w.run_generate (s := world.say [] log) htext
  obtain ⟨trace, result, stop, log'', hruns, hmade⟩ :=
    run_makeExecutable hcancelled (s := world) hwrite [] (log ++ log')
  rw [htools] at hruns
  rw [hintermediates] at hmade
  refine ⟨trace, result, stop, log ++ log' ++ log'', hruns, ?_⟩
  rw [run, World.run_bind, hparsed]
  simp only
  rw [World.run_bind, hgenerate]
  simp only
  rw [if_pos hkind]
  rw [World.say_say, List.nil_append]
  exact hmade

/-- How an executable is made from a source that parses, if the generated text can be
    written and the tools change regular files only. The tools of the recipe are called in
    order up to the first that fails, whose error is the result. All that is told is how
    each call went. Without `keep`, whatever became of the tools, no intermediate file is
    left, and the only thing that can still be at its path is a directory that was there
    before; no other place changes after the last call. With `keep` all files are as the
    tools left them. -/
theorem run_executable (hkind : j.kind = .executable) (hrecipe : j.Follows w.toolchain r)
    (hsrc : world.files.readFile world.cwd j.paths.source = .ok src)
    (hparse : Program.parse (.ofBytes j.paths.source.text src) = .ok program)
    (htext : program.generate ⟨j.backend, j.optimized⟩ j.labels = .ok text)
    (hwrite : world.files.writeFile world.cwd r.generated text = .ok files)
    (hdirs : world.KeepsDirectories) :
    ∃ trace result stop final, (w.run j : StateM World _).run world = (result, final) ∧
      ToolRuns { world with files } r.tools trace result stop ∧
      (∀ f, result = .error (.toolFailed f) ↔ ∃ i code stderr,
        trace.getLast? = some (i, .exited code stderr) ∧ code ≠ 0 ∧ f = ⟨i, code, stderr⟩) ∧
      final.stdout = world.stdout ++ w.told trace ∧ final.runs = stop.runs ∧
      (j.paths.keep = true → final.files = stop.files) ∧
      (j.paths.keep = false → final.files.Absent world.cwd r.generated ∧
        (∀ path ∈ r.intermediates, final.files.Absent world.cwd path ∨
          world.files.stat world.cwd path = .ok .directory ∧
            final.files.stat world.cwd path = .ok .directory) ∧
        ∀ place, (∀ path ∈ r.intermediates, ∀ e, stop.files.find world.cwd path ≠ .ok (place, e)) →
          final.files.get? place = stop.files.get? place) := by
  obtain ⟨trace, result, stop, log, hruns, hrun⟩ :=
    run_run hcancelled hkind hrecipe hsrc hparse htext hwrite
  obtain ⟨left, runs, rfl, hsame⟩ := hruns.happened.eq
  have hdirectories : FileTree.SameDirectories left world.files :=
    ((FileTree.sameDirectories_writeFile hwrite).trans (hsame hdirs)).symm
  refine ⟨trace, result, _, _, hrun, hruns, hruns.toolFailed_iff, rfl, rfl,
    fun hkeep => if_pos hkeep, fun hkeep => ?_⟩
  have hfiles : (if j.paths.keep then left else left.removeAll world.cwd r.intermediates) =
      left.removeAll world.cwd r.intermediates := if_neg (by simp [hkeep])
  simp only [World.say, hfiles]
  -- What is left at the path of an intermediate file was there from the beginning.
  have hleft : ∀ path ∈ r.intermediates, ∀ place e,
      (left.removeAll world.cwd r.intermediates).find world.cwd path = .ok (place, e) →
      e = .directory ∧ world.files.find world.cwd path = .ok (place, .directory) := by
    intro path hpath place e hfind
    obtain ⟨he, hdirectory⟩ := FileTree.find_removeAll hpath hfind
    exact ⟨he, hdirectories.find_directory hdirectory⟩
  refine ⟨?_, fun path hpath => ?_, fun place hplace => FileTree.get?_removeAll hplace⟩
  · refine (FileTree.absent_or_find _ world.cwd r.generated).resolve_right ?_
    rintro ⟨place, e, hfind⟩
    obtain ⟨-, hdirectory⟩ := hleft _ (Recipe.generated_mem hrecipe) place e hfind
    exact FileTree.find_ne_directory_of_writeFile hwrite place hdirectory
  · refine (FileTree.absent_or_find _ world.cwd path).imp_right ?_
    rintro ⟨place, e, hfind⟩
    obtain ⟨rfl, hdirectory⟩ := hleft path hpath place e hfind
    exact ⟨FileTree.stat_of_find hdirectory, FileTree.stat_of_find hfind⟩

end Workshop

/-- A scripted tool that makes no directories changes nothing, or writes its output. -/
theorem ScriptedTool.files_cases {tool : ScriptedTool} (h : tool.makesDirectory = false)
    (files : FileTree) (cwd : Place) (args : List Bytes) :
    (tool.behaviour files cwd args).1 = files ∨
      ∃ content, files.writeFile cwd (args.getD 2 []) content = .ok (tool.behaviour files cwd args).1 := by
  rw [behaviour]
  simp only [h, Bool.false_eq_true, if_false]
  split
  · exact .inl rfl
  · split
    · exact .inl rfl
    · split
      · exact .inl rfl
      · split
        case h_1 files' hwrite => exact .inr ⟨_, hwrite⟩
        case h_2 => exact .inl rfl

theorem ScriptedTool.sameDirectories {tool : ScriptedTool} (h : tool.makesDirectory = false)
    (files : FileTree) (cwd : Place) (args : List Bytes) :
    FileTree.SameDirectories files (tool.behaviour files cwd args).1 := by
  rcases files_cases h files cwd args with hsame | ⟨content, hwrite⟩
  · rw [hsame]
    exact .refl files
  · exact FileTree.sameDirectories_writeFile hwrite

/-- The assembler succeeds and the linker fails: its code and what it wrote are the
    result, and both intermediate files are gone. -/
theorem Workshop.run_executable_unlinked :
    let world : World := {
      files := ⟨[(["bin"], .directory), (["bin", "as"], .file [0x61] true),
        (["bin", "gcc"], .file [0x67] true), (["p.b"], .file [0x2B] false)]⟩
      env := [("PATH", "/bin")]
      behaviour := fun content =>
        if content = [0x61] then some (ScriptedTool.behaviour { name := "as" })
        else if content = [0x67] then
          some (ScriptedTool.behaviour { name := "gcc", code := 1, stderr := [0x3F] })
        else none }
    let job : Job := {
      paths := { source := "p.b", assembly := "t.S", cSource := "t.c", object := "t.o",
                 output := "p", keep := false }
      kind := .executable }
    let shop : Workshop := { toolchain := .default }
    ∃ program text files,
      (job.Follows shop.toolchain (.assembly job.paths shop.toolchain) ∧ world.KeepsDirectories ∧
        world.files.readFile world.cwd job.paths.source = .ok [0x2B] ∧
        Program.parse (.ofBytes job.paths.source.text [0x2B]) = .ok program ∧
        program.generate ⟨job.backend, job.optimized⟩ job.labels = .ok text ∧
        world.files.writeFile world.cwd job.paths.assembly text = .ok files) ∧
      ∃ trace result stop final, (shop.run job : StateM World _).run world = (result, final) ∧
        ToolRuns { world with files } (Recipe.assembly job.paths shop.toolchain).tools trace result
          stop ∧
        result = .error (.toolFailed ⟨⟨"gcc", ["t.o", "-o", "p"]⟩, 1, [0x3F]⟩) ∧
        final.stdout = Bytes.ofString "Running \x60as\x60... SUCCESS\nRunning \x60gcc\x60... FAILED\n" ∧
        final.files.Absent world.cwd "t.S" ∧ final.files.Absent world.cwd "t.o" := by
  intro world job shop
  have hrecipe : job.Follows shop.toolchain (.assembly job.paths shop.toolchain) := .assembly rfl
  have hdirs : world.KeepsDirectories := by
    intro content program hprogram files cwd args
    simp only [world] at hprogram
    split at hprogram
    · cases hprogram
      exact ScriptedTool.sameDirectories rfl files cwd args
    · split at hprogram
      · cases hprogram
        exact ScriptedTool.sameDirectories rfl files cwd args
      · cases hprogram
  have hsrc : world.files.readFile world.cwd job.paths.source = .ok [0x2B] := by decide +kernel
  obtain ⟨program, hparse⟩ :
      ∃ program, Program.parse (.ofBytes job.paths.source.text [0x2B]) = .ok program := ⟨_, rfl⟩
  have hknown : Stmt.Everywhere (·.isKnown) program.body :=
    (Program.canonical_of_parse hparse).1.1.imp fun s hs => hs.1
  have htext := Program.generate_counter hknown ⟨job.backend, job.optimized⟩ 0
  have hstep : world.files.lastStep world.cwd job.paths.assembly = .ok ⟨[], "t.S", false⟩ := by
    decide +kernel
  obtain ⟨files, hwrite⟩ : ∃ files, world.files.writeFile world.cwd job.paths.assembly
      (Bytes.ofString (Program.textOf (program.chunksAfter 0 ⟨job.backend, job.optimized⟩))) =
        .ok files := by
    rw [FileTree.writeFile, hstep]
    exact ⟨_, rfl⟩
  obtain ⟨trace, result, stop, final, hrun, hruns, -, -, -, -, hgone⟩ :=
    run_executable (w := shop) rfl rfl hrecipe hsrc hparse htext hwrite hdirs
  obtain ⟨hassembly, hintermediates, -⟩ := hgone rfl
  have hstdout : ((shop.run job : StateM World _).run world).2.stdout =
      Bytes.ofString "Running \x60as\x60... SUCCESS\nRunning \x60gcc\x60... FAILED\n" := by
    decide +kernel
  have hfailure : ((shop.run job : StateM World _).run world).1.mapError BuildError.tool? =
      .error (some ⟨⟨"gcc", ["t.o", "-o", "p"]⟩, 1, [0x3F]⟩) := by
    decide +kernel
  rw [hrun] at hstdout hfailure
  have hresult : result = .error (.toolFailed ⟨⟨"gcc", ["t.o", "-o", "p"]⟩, 1, [0x3F]⟩) := by
    cases result with
    | ok => cases hfailure
    | error e =>
      cases e with
      | toolFailed f => rw [Option.some.inj (Except.error.inj hfailure)]
      | _ => cases hfailure
  have hobject : world.files.stat world.cwd "t.o" ≠ .ok .directory := by decide +kernel
  exact ⟨program, _, files, ⟨hrecipe, hdirs, hsrc, hparse, htext, hwrite⟩, trace, result, stop, final,
    hrun, hruns, hresult, hstdout, hassembly,
    (hintermediates "t.o" (by decide +kernel)).resolve_right fun h => hobject h.1⟩

end TapeCompiler
