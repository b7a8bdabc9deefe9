import TapeCompiler.Proofs.Completion
import TapeCompiler.Proofs.ExecutableBuild

/-!
# Builds without tools

A build comes to its end before any tool is called in two ways:

  * the source cannot be read, or is no program. Then nothing at all has happened
    (`Workshop.run_eq_of_parse`), because text is written only after all of it has been
    generated, and generated only after all of the source has been parsed;
  * only text is asked for. Then the output is written, and it is the only file that
    changes (`Workshop.run_text`).

Both are put together in `Workshop.run_without_tools`.
-/

namespace TapeCompiler

/-- What becomes of a build whose source cannot be opened or read. -/
def BuildError.ofSource (e : FileError) : BuildError :=
  if e.operation = .open then .sourceMissing e else .unparsable (.unreadable e.message.text)

namespace Workshop

variable {w : Workshop} {j : Job} {world : World} {src : Bytes} {program : Program}

/-! ## Sources that are no programs -/

theorem run_parse_unreadable {source : Bytes} {e : FileError}
    (hsrc : world.files.readFile world.cwd source = .error e) :
    (w.parse source : StateM World _).run world = (.error (.ofSource e), world) := by
  have hread : (Host.readFile source : StateM World _).run world = (.error e, world) := by
    rw [← hsrc]
    rfl
  rw [parse, World.run_bind, hread, BuildError.ofSource]
  simp only
  split
  case h_1 hopen => rw [if_pos hopen]; rfl
  case h_2 hother => rw [if_neg hother]; rfl

theorem run_parse_malformed {source : Bytes} {e : ParseError}
    (hsrc : world.files.readFile world.cwd source = .ok src)
    (hparse : Program.parse (.ofBytes source.text src) = .error e) :
    (w.parse source : StateM World _).run world = (.error (.unparsable e), world) := by
  have hread : (Host.readFile source : StateM World _).run world = (.ok src, world) := by
    rw [← hsrc]
    rfl
  have hnow : (Host.now : StateM World _).run world = (world.now, world) := rfl
  rw [parse, World.run_bind, hread]
  simp only
  rw [World.run_bind, hnow]
  simp only [hparse]
  rfl

/-- If there is no program, the build is over, and nothing has happened. -/
theorem run_eq_of_parse {e : BuildError}
    (h : (w.parse j.paths.source : StateM World _).run world = (.error e, world)) :
    (w.run j : StateM World _).run world = (.error e, world) := by
  rw [run, World.run_bind, h]
  rfl

/-! ## Builds of text -/

/-- Writing is refused, and nothing has happened, or the file is written. -/
theorem run_writeText_cases (path : Bytes) (text : String) (s : World) :
    (∃ e, s.files.writeFile s.cwd path text = .error e ∧
      (writeText path text : StateM World _).run s = (.error (.unwritable e), s)) ∨
    (∃ files, s.files.writeFile s.cwd path text = .ok files ∧
      (writeText path text : StateM World _).run s = (.ok (), { s with files })) := by
  cases hwrite : s.files.writeFile s.cwd path text with
  | error e =>
    have hfile : (Host.writeFile path text : StateM World _).run s = (.error e, s) := by
      change s.update _ = _
      rw [hwrite]
      rfl
    refine .inl ⟨e, rfl, ?_⟩
    rw [writeText, World.run_bind, hfile]
    rfl
  | ok files => exact .inr ⟨files, rfl, run_writeText hwrite⟩

/-- A build of text reads, parses and generates, and then does no more than write its
    output. -/
theorem run_text (hkind : j.kind ≠ .executable)
    (hsrc : world.files.readFile world.cwd j.paths.source = .ok src)
    (hparse : Program.parse (.ofBytes j.paths.source.text src) = .ok program) {text : String}
    (htext : program.generate ⟨j.backend, j.optimized⟩ j.labels = .ok text) :
    ∃ log, (w.run j : StateM World _).run world =
      (writeText j.paths.output text : StateM World _).run (world.say [] log) := by
  obtain ⟨log, hparsed⟩ := w.run_parse hsrc hparse
  obtain ⟨log', hgenerate⟩ := w.run_generate (s := world.say [] log) htext
  refine ⟨log ++ log', ?_⟩
  rw [run, World.run_bind, hparsed]
  simp only
  rw [World.run_bind, hgenerate]
  simp only
  rw [if_neg hkind, World.say_say, List.nil_append]

/-- Assembly and C source bring their own target. -/
theorem backend_of_kind {target : Target}
    (h : j.kind = .assembly ∧ target = Assembly.target ∨ j.kind = .cSource ∧ target = C.target) :
    j.kind ≠ .executable ∧ j.backend = target := by
  rcases h with ⟨hkind, rfl⟩ | ⟨hkind, rfl⟩
  · rw [Job.backend, hkind]
    exact ⟨by decide, rfl⟩
  · rw [Job.backend, hkind]
    exact ⟨by decide, rfl⟩

/-- A source that cannot be opened or read, or is no program, is the result of a build, and
    the world stays as it is: no tool has run, nothing is told, and no file has changed. A
    build of assembly or C source from a program runs no tool and tells nothing either. It
    writes the text that the target of its kind gives, whatever other target the job names;
    if that is refused, no file has changed, and else none but the output. -/
theorem run_without_tools (w : Workshop) (j : Job) (world : World) :
    (∀ e, world.files.readFile world.cwd j.paths.source = .error e →
      (w.run j : StateM World _).run world = (.error (.ofSource e), world)) ∧
    (∀ src e, world.files.readFile world.cwd j.paths.source = .ok src →
      Program.parse (.ofBytes j.paths.source.text src) = .error e → ∃ malformed, e = .malformed malformed ∧
        (w.run j : StateM World _).run world = (.error (.unparsable (.malformed malformed)), world)) ∧
    (∀ src program target, world.files.readFile world.cwd j.paths.source = .ok src →
      Program.parse (.ofBytes j.paths.source.text src) = .ok program →
      (j.kind = .assembly ∧ target = Assembly.target ∨ j.kind = .cSource ∧ target = C.target) →
      ∃ text result final, program.generate ⟨target, j.optimized⟩ j.labels = .ok text ∧
        (w.run j : StateM World _).run world = (result, final) ∧
        final.runs = world.runs ∧ final.stdout = world.stdout ∧
        ((∃ e, world.files.writeFile world.cwd j.paths.output text = .error e ∧
            result = .error (.unwritable e) ∧ final.files = world.files) ∨
          (result = .ok () ∧ ∃ place executable, final.files.find world.cwd j.paths.output =
              .ok (place, .file (Bytes.ofString text) executable) ∧
            ∀ p, p ≠ place → final.files.get? p = world.files.get? p))) := by
  refine ⟨?_, ?_, ?_⟩
  · intro e hsrc
    exact run_eq_of_parse (run_parse_unreadable hsrc)
  · intro src e hsrc hparse
    have hrun := run_eq_of_parse (w := w) (run_parse_malformed hsrc hparse)
    obtain ⟨malformed, rfl⟩ := Program.exists_malformed hparse
    exact ⟨malformed, rfl, hrun⟩
  · intro src program target hsrc hparse htarget
    obtain ⟨hkind, rfl⟩ := backend_of_kind htarget
    have hknown : Stmt.Everywhere (·.isKnown) program.body :=
      (Program.canonical_of_parse hparse).1.1.imp fun s hs => hs.1
    obtain ⟨text, htext⟩ :=
      Program.exists_generate hknown ⟨j.backend, j.optimized⟩ j.labels
    obtain ⟨log, hrun⟩ := run_text (w := w) hkind hsrc hparse htext
    rcases run_writeText_cases j.paths.output text (world.say [] log) with
      ⟨e, hwrite, hwritten⟩ | ⟨files, hwrite, hwritten⟩
    · exact ⟨text, _, _, htext, hrun.trans hwritten, rfl, List.append_nil _,
        .inl ⟨e, hwrite, rfl, rfl⟩⟩
    · exact ⟨text, _, _, htext, hrun.trans hwritten, rfl, List.append_nil _,
        .inr ⟨rfl, FileTree.find_of_writeFile hwrite⟩⟩

/-- Three builds of assembly over an old output: without a source, from a source with an
    open loop, and from a program. The last one writes assembly although the job names C. -/
theorem run_without_tools_assembly :
    let world : World := {
      files := ⟨[(["bad.b"], .file [0x2B, 0x5B] false), (["good.b"], .file [0x2B] false),
        (["p.S"], .file [0x6F] false)]⟩ }
    let job (source : Bytes) : Job := {
      paths := { source, assembly := "t.S", cSource := "t.c", object := "t.o", output := "p.S",
                 keep := true }
      kind := .assembly
      target? := some C.target }
    let shop : Workshop := { toolchain := .default }
    (world.files.readFile world.cwd "none.b" = .error ⟨.open, "none.b", .noSuchFile⟩ ∧
      (shop.run (job "none.b") : StateM World _).run world =
        (.error (.sourceMissing ⟨.open, "none.b", .noSuchFile⟩), world)) ∧
    (∃ e, Program.parse (.ofBytes "bad.b" [0x2B, 0x5B]) = .error (.malformed e) ∧
      e.kind = .unterminatedLoop ∧
      (shop.run (job "bad.b") : StateM World _).run world =
        (.error (.unparsable (.malformed e)), world)) ∧
    ∃ program text final, Program.parse (.ofBytes "good.b" [0x2B]) = .ok program ∧
      program.generate ⟨Assembly.target, false⟩ = .ok text ∧
      (shop.run (job "good.b") : StateM World _).run world = (.ok (), final) ∧
      final.runs = [] ∧ final.stdout = [] ∧
      ∃ place executable, final.files.find world.cwd "p.S" =
          .ok (place, .file (Bytes.ofString text) executable) ∧
        ∀ p, p ≠ place → final.files.get? p = world.files.get? p := by
  intro world job shop
  have hnone : world.files.readFile world.cwd "none.b" = .error ⟨.open, "none.b", .noSuchFile⟩ := by
    decide +kernel
  have hbad : world.files.readFile world.cwd "bad.b" = .ok [0x2B, 0x5B] := by decide +kernel
  have hgood : world.files.readFile world.cwd "good.b" = .ok [0x2B] := by decide +kernel
  have hstep : world.files.lastStep world.cwd "p.S" = .ok ⟨[], "p.S", false⟩ := by decide +kernel
  have hwrite : ∀ content, ∃ files, world.files.writeFile world.cwd "p.S" content = .ok files := by
    intro content
    rw [FileTree.writeFile, hstep]
    exact ⟨_, rfl⟩
  have hmissing := (run_without_tools shop (job "none.b") world).1 _ hnone
  rw [BuildError.ofSource, if_pos rfl] at hmissing
  refine ⟨⟨hnone, hmissing⟩, ?_, ?_⟩
  · obtain ⟨e, hparse, hkind⟩ : ∃ e,
        Program.parse (.ofBytes "bad.b" [0x2B, 0x5B]) = .error (.malformed e) ∧
          e.kind = .unterminatedLoop := ⟨_, rfl, rfl⟩
    obtain ⟨e', he, hrun⟩ := (run_without_tools shop (job "bad.b") world).2.1 _ _ hbad hparse
    cases he
    exact ⟨e, hparse, hkind, hrun⟩
  · obtain ⟨program, hparse⟩ :
        ∃ program, Program.parse (.ofBytes "good.b" [0x2B]) = .ok program := ⟨_, rfl⟩
    obtain ⟨text, result, final, htext, hrun, hruns, hstdout, ⟨e, hrefused, -⟩ | ⟨rfl, hfiles⟩⟩ :=
      (run_without_tools shop (job "good.b") world).2.2 _ _ _ hgood hparse (.inl ⟨rfl, rfl⟩)
    · obtain ⟨files, hfiles⟩ := hwrite (Bytes.ofString text)
      cases hrefused.symm.trans hfiles
    · exact ⟨program, text, final, hparse, htext, hrun, hruns, hstdout, hfiles⟩

end Workshop

end TapeCompiler
