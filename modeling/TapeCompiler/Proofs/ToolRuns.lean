import TapeCompiler.Build.Run
import TapeCompiler.Host.World
import TapeCompiler.Proofs.FileTree

/-!
# Runs of tools

What tools do is up to the world they run in: `World.invoke` says what becomes of one
call, and `World.Trace` what becomes of several in a row. A workshop adds to that what
it tells about it, which no tool can see: worlds that differ in what was written to
their streams go on alike (`World.invoke_say`).

The main result is `Workshop.run_runTools`: running tools makes a trace of calls
(`ToolRuns`), in which every call but the last succeeded, and the outcome of the last
one is the result.
-/

namespace TapeCompiler

namespace World

/-! ## Streams -/

/-- The world after more has been written to its streams. -/
def say (s : World) (out err : Bytes) : World :=
  { s with stdout := s.stdout ++ out, stderr := s.stderr ++ err }

@[simp] theorem say_nil (s : World) : s.say [] [] = s := by
  simp [say]

@[simp] theorem say_say (s : World) (out err out' err' : Bytes) :
    (s.say out err).say out' err' = s.say (out ++ out') (err ++ err') := by
  simp [say]

theorem run_bind {α β : Type} (x : StateM World α) (f : α → StateM World β) (s : World) :
    (x >>= f).run s = (f (x.run s).1).run (x.run s).2 := rfl

/-- The computation only looks at the world, and not at its streams. -/
def Looks {α : Type} (x : StateM World α) : Prop :=
  ∀ s out err, x.run (s.say out err) = ((x.run s).1, s.say out err)

namespace Looks

variable {α β : Type} {x : StateM World α} {f : α → StateM World β}

theorem run_eq (h : Looks x) (s : World) : x.run s = ((x.run s).1, s) := by
  have hnil := h s [] []
  rwa [say_nil] at hnil

protected theorem pure (a : α) : Looks (pure a : StateM World α) :=
  fun _ _ _ => rfl

protected theorem bind (hx : Looks x) (hf : ∀ a, Looks (f a)) : Looks (x >>= f) := by
  intro s out err
  rw [run_bind, run_bind, hx s out err, hx.run_eq s]
  exact hf _ s out err

theorem stat (path : Bytes) : Looks (Host.stat path) :=
  fun _ _ _ => rfl

theorem getEnv (name : Bytes) : Looks (Host.getEnv name) :=
  fun _ _ _ => rfl

theorem refusal? (path : Bytes) : Looks (Search.refusal? path) := by
  refine (stat path).bind fun r => ?_
  split <;> exact .pure _

theorem inDirectories (name : Bytes) (ds : List Bytes) : Looks (Search.inDirectories name ds) := by
  induction ds with
  | nil => exact .pure _
  | cons d ds ih =>
    refine (refusal? _).bind fun r => ?_
    cases r with
    | none => exact .pure _
    | some _ => exact ih

theorem find (name : Bytes) : Looks (Search.find name) := by
  rw [Search.find]
  split
  · refine (refusal? name).bind fun r => ?_
    cases r <;> exact .pure _
  · exact (getEnv "PATH").bind fun path => inDirectories name _

theorem locate (name : Bytes) : Looks (Workshop.locate name) := by
  rw [Workshop.locate]
  split
  · exact .pure _
  · split
    · refine (find name).bind fun r => ?_
      cases r <;> exact .pure _
    · exact .pure _

end Looks

end World

/-! ## One call -/

/-- What became of a call. -/
inductive ToolOutcome where
  | notStarted (f : StartFailure)
  /-- The tool ran, and ended with this code and this text on its error stream. -/
  | exited (code : Int) (stderr : Bytes)
  deriving DecidableEq, Repr

namespace ToolOutcome

/-- Whether the tool ran and ended well. -/
def succeeded : ToolOutcome → Bool
  | notStarted _ => false
  | exited code _ => code = 0

/-- The error that a call leads to. A tool that ran and failed is reported with its code
    and what it wrote. -/
def error? (i : Invocation) : ToolOutcome → Option BuildError
  | notStarted (.unsearchable _ .notFound) => some (.toolNotFound i.program)
  | notStarted f => some (.toolNotStarted i.program f)
  | exited code stderr => if code = 0 then none else some (.toolFailed ⟨i, code, stderr⟩)

/-- What a call makes of a build. -/
def verdict (i : Invocation) (o : ToolOutcome) : Except BuildError Unit :=
  match o.error? i with
  | none => .ok ()
  | some e => .error e

variable {i : Invocation} {o : ToolOutcome}

theorem error?_eq_none_iff : o.error? i = none ↔ o.succeeded := by
  fun_cases error? i o <;> simp_all [succeeded]

theorem error?_eq_toolFailed_iff {f : ToolFailure} : o.error? i = some (.toolFailed f) ↔
    ∃ code stderr, o = .exited code stderr ∧ code ≠ 0 ∧ f = ⟨i, code, stderr⟩ := by
  fun_cases error? i o <;> simp_all [eq_comm]

theorem verdict_eq_ok (h : o.error? i = none) : o.verdict i = .ok () := by
  rw [verdict, h]

variable {e : BuildError}

theorem verdict_eq_error (h : o.error? i = some e) : o.verdict i = .error e := by
  rw [verdict, h]

theorem succeeded_eq_false (h : o.error? i = some e) : o.succeeded = false := by
  rw [Bool.eq_false_iff, ne_eq, ← error?_eq_none_iff (i := i), h]
  exact Option.some_ne_none e

end ToolOutcome

namespace World

/-- Calls a tool. -/
def invoke (s : World) (i : Invocation) : ToolOutcome × World :=
  match ((Workshop.locate i.program : StateM World _).run s).1 with
  | .error f => (.notStarted f, s)
  | .ok path =>
    match s.execute path i.args with
    | (.error e, s') => (.notStarted (.refused e), s')
    | (.ok result, s') => (.exited result.code result.stderr, s')

theorem execute_say (s : World) (out err : Bytes) (path : Bytes) (args : List Bytes) :
    (s.say out err).execute path args =
      ((s.execute path args).1, (s.execute path args).2.say out err) := by
  simp only [execute, say]
  split
  case h_1 | h_2 | h_3 => rfl
  case h_4 =>
    split
    case h_1 | h_2 => rfl

/-- A tool does not see what was written to the streams. -/
theorem invoke_say (s : World) (out err : Bytes) (i : Invocation) :
    (s.say out err).invoke i = ((s.invoke i).1, (s.invoke i).2.say out err) := by
  rw [invoke, invoke, Looks.locate i.program s out err]
  simp only [execute_say]
  split
  case h_1 => rfl
  case h_2 path _ =>
    rcases s.execute path i.args with ⟨r, s'⟩
    cases r <;> rfl

/-! ## Calls in a row -/

/-- The calls lead from one world to the other, with these outcomes. -/
inductive Trace : World → List (Invocation × ToolOutcome) → World → Prop
  | nil (s : World) : Trace s [] s
  | cons {s s' s'' : World} {i : Invocation} {o : ToolOutcome}
      {rest : List (Invocation × ToolOutcome)} :
      s.invoke i = (o, s') → Trace s' rest s'' → Trace s ((i, o) :: rest) s''

/-- The tools of the world change regular files only. -/
def KeepsDirectories (s : World) : Prop :=
  ∀ content program, s.behaviour content = some program → ∀ files cwd args,
    FileTree.SameDirectories files (program files cwd args).1

/-- A program changes files and nothing else but the list of programs that were run. -/
theorem execute_eq (s : World) (path : Bytes) (args : List Bytes) :
    ∃ files runs, (s.execute path args).2 = { s with files, runs } ∧
      (s.KeepsDirectories → FileTree.SameDirectories s.files files) := by
  rw [execute]
  split
  case h_1 | h_2 | h_3 => exact ⟨s.files, s.runs, rfl, fun _ => .refl _⟩
  case h_4 place content _ =>
    split
    case h_1 => exact ⟨s.files, s.runs, rfl, fun _ => .refl _⟩
    case h_2 program hprogram =>
      exact ⟨_, _, rfl, fun h => h content program hprogram s.files s.cwd args⟩

theorem invoke_eq (s : World) (i : Invocation) :
    ∃ files runs, (s.invoke i).2 = { s with files, runs } ∧
      (s.KeepsDirectories → FileTree.SameDirectories s.files files) := by
  rw [invoke]
  split
  case h_1 => exact ⟨s.files, s.runs, rfl, fun _ => .refl _⟩
  case h_2 path _ =>
    obtain ⟨files, runs, hs, hdirs⟩ := s.execute_eq path i.args
    rcases hrun : s.execute path i.args with ⟨r, s'⟩
    rw [hrun] at hs
    cases r <;> exact ⟨files, runs, hs, hdirs⟩

/-- What holds for one call holds for a trace. -/
theorem Trace.eq {s s' : World} {trace : List (Invocation × ToolOutcome)} (h : Trace s trace s') :
    ∃ files runs, s' = { s with files, runs } ∧
      (s.KeepsDirectories → FileTree.SameDirectories s.files files) := by
  induction h with
  | nil s => exact ⟨s.files, s.runs, rfl, fun _ => .refl _⟩
  | @cons s s' s'' i o rest hinvoke _ ih =>
    obtain ⟨files, runs, hs', hdirs⟩ := invoke_eq s i
    obtain ⟨files', runs', rfl, hdirs'⟩ := ih
    rw [hinvoke] at hs'
    cases hs'
    exact ⟨files', runs', rfl, fun h => (hdirs h).trans (hdirs' h)⟩

end World

/-- How a pipeline of tools was run. -/
structure ToolRuns (start : World) (tools : List Invocation) (trace : List (Invocation × ToolOutcome))
    (result : Except BuildError Unit) (stop : World) : Prop where
  happened : start.Trace trace stop
  /-- The tools are called in order. -/
  inOrder : trace.map Prod.fst <+: tools
  /-- A tool is called only if all before it succeeded. -/
  afterSuccess : ∀ call ∈ trace.dropLast, call.2.succeeded
  ok_iff : result = .ok () ↔ trace.map Prod.fst = tools ∧ ∀ call ∈ trace, call.2.succeeded
  /-- The error is that of the last call. -/
  error_iff : ∀ e, result = .error e ↔ ∃ i o, trace.getLast? = some (i, o) ∧ o.error? i = some e

namespace ToolRuns

variable {s s' stop : World} {i : Invocation} {o : ToolOutcome} {tools : List Invocation}
  {trace : List (Invocation × ToolOutcome)} {result : Except BuildError Unit}

protected theorem nil (s : World) : ToolRuns s [] [] (.ok ()) s where
  happened := .nil s
  inOrder := List.nil_prefix
  afterSuccess := by simp
  ok_iff := by simp
  error_iff := by simp

/-- The first call fails, and there are no more. -/
theorem fails {e : BuildError} (hinvoke : s.invoke i = (o, s')) (herror : o.error? i = some e)
    (tools : List Invocation) : ToolRuns s (i :: tools) [(i, o)] (.error e) s' where
  happened := .cons hinvoke (.nil s')
  inOrder := by simp
  afterSuccess := by simp
  ok_iff := by simp [ToolOutcome.succeeded_eq_false herror]
  error_iff := by simp [herror]

/-- The first call succeeds, and the others follow. -/
theorem next (hinvoke : s.invoke i = (o, s')) (hsucceeded : o.succeeded)
    (h : ToolRuns s' tools trace result stop) :
    ToolRuns s (i :: tools) ((i, o) :: trace) result stop where
  happened := .cons hinvoke h.happened
  inOrder := List.cons_prefix_cons.2 ⟨rfl, h.inOrder⟩
  afterSuccess := by
    have hrest := h.afterSuccess
    cases trace with
    | nil => simp
    | cons call trace => simpa [hsucceeded] using hrest
  ok_iff := by
    rw [h.ok_iff]
    simp [hsucceeded]
  error_iff := by
    intro e
    rw [h.error_iff]
    cases trace with
    | nil =>
      -- A call that succeeds leads to no error.
      have hnone : o.error? i = none := ToolOutcome.error?_eq_none_iff.2 hsucceeded
      simp [hnone]
    | cons call trace => rw [List.getLast?_cons_cons]

/-- The tool that ran and failed is the last one called, and its code and what it wrote
    are reported. -/
theorem toolFailed_iff (h : ToolRuns s tools trace result stop) (f : ToolFailure) :
    result = .error (.toolFailed f) ↔ ∃ i code stderr,
      trace.getLast? = some (i, .exited code stderr) ∧ code ≠ 0 ∧ f = ⟨i, code, stderr⟩ := by
  rw [h.error_iff]
  constructor
  · rintro ⟨i, o, hlast, herror⟩
    obtain ⟨code, stderr, rfl, hcode, rfl⟩ := ToolOutcome.error?_eq_toolFailed_iff.1 herror
    exact ⟨i, code, stderr, hlast, hcode, rfl⟩
  · rintro ⟨i, code, stderr, hlast, hcode, rfl⟩
    exact ⟨i, _, hlast, ToolOutcome.error?_eq_toolFailed_iff.2 ⟨code, stderr, rfl, hcode, rfl⟩⟩

end ToolRuns

/-! ## Running tools -/

theorem Log.Logger.exists_run_write (l : Log.Logger) (level : Log.Level) (message : String)
    (attributes : List (String × Log.Value)) (s : World) :
    ∃ err, (l.write level message attributes : StateM World Unit).run s = ((), s.say [] err) := by
  rw [Log.Logger.write]
  split
  · refine ⟨Log.line s.now level message attributes, ?_⟩
    simp only [World.say, List.append_nil]
    rfl
  · exact ⟨[], by rw [World.say_nil]; rfl⟩

/-- Whatever is done after writing to the log is done with more on the error stream. -/
theorem Log.Logger.exists_run_write_bind {α : Type} (l : Log.Logger) (level : Log.Level)
    (message : String) (attributes : List (String × Log.Value)) (f : Unit → StateM World α) (s : World) :
    ∃ err, (l.write level message attributes >>= f).run s = (f ()).run (s.say [] err) := by
  obtain ⟨err, herr⟩ := l.exists_run_write level message attributes s
  exact ⟨err, by rw [World.run_bind, herr]⟩

namespace Workshop

variable (w : Workshop)

/-- What the workshop tells about calls. -/
def told (trace : List (Invocation × ToolOutcome)) : Bytes :=
  if w.progress then
    trace.flatMap fun (i, o) => "Running \x60" ++ i.program ++ "\x60... " ++
      Bytes.ofString (if o.succeeded then "SUCCESS\n" else "FAILED\n")
  else []

theorem told_nil : w.told [] = [] := by
  simp [told]

theorem told_cons (call : Invocation × ToolOutcome) (trace : List (Invocation × ToolOutcome)) :
    w.told (call :: trace) = w.told [call] ++ w.told trace := by
  rw [told, told, told]
  split <;> simp

theorem run_report (text : Bytes) (s : World) : (w.report text : StateM World Unit).run s =
    ((), s.say (if w.progress then text else []) []) := by
  rw [report]
  split
  · simp only [World.say, List.append_nil]
    rfl
  · rw [World.say_nil]
    rfl

theorem run_attempt (hcancelled : w.cancelled = false) (i : Invocation) (s : World) :
    (w.attempt i : StateM World _).run s = ((s.invoke i).1.verdict i, (s.invoke i).2) := by
  rw [attempt, World.run_bind, (World.Looks.locate i.program).run_eq s, World.invoke]
  cases ((locate i.program : StateM World _).run s).1 with
  | error f =>
    cases f with
    | unsearchable name f => cases f <;> simp only [hcancelled] <;> rfl
    | noCommand | refused e => simp only [hcancelled]; rfl
  | ok path =>
    simp only [hcancelled, Bool.false_eq_true, if_false, World.run_bind]
    have hexecute : (Host.execute path i.args : StateM World _).run s = s.execute path i.args := rfl
    rw [hexecute]
    rcases s.execute path i.args with ⟨r, s'⟩
    cases r with
    | error e => rfl
    | ok result =>
      simp only [ToolOutcome.verdict, ToolOutcome.error?]
      split <;> rfl

variable {w} (hcancelled : w.cancelled = false)
include hcancelled

theorem run_runTool (i : Invocation) (s : World) : ∃ err, (w.runTool i : StateM World _).run s =
    ((s.invoke i).1.verdict i, (s.invoke i).2.say (w.told [(i, (s.invoke i).1)]) err) := by
  rw [runTool]
  obtain ⟨err, hlog⟩ := w.logger.exists_run_write_bind .debug "exec"
    [("tool", .text i.program), ("args", .words i.args)] _ s
  refine ⟨err, hlog.trans ?_⟩
  rw [World.run_bind, run_report, World.run_bind, run_attempt w hcancelled]
  simp only [World.say_say, World.invoke_say, List.nil_append, List.append_nil]
  rcases s.invoke i with ⟨o, s'⟩
  have htold : w.told [(i, o)] =
      (if w.progress then "Running \x60" ++ i.program ++ "\x60... " else []) ++
        if w.progress then Bytes.ofString (if o.succeeded then "SUCCESS\n" else "FAILED\n") else [] := by
    rw [told]
    split <;> simp
  cases herror : o.error? i with
  | none =>
    simp only [ToolOutcome.verdict_eq_ok herror]
    rw [World.run_bind, run_report, World.say_say, List.append_nil, htold,
      ToolOutcome.error?_eq_none_iff.1 herror]
    rfl
  | some e =>
    simp only [ToolOutcome.verdict_eq_error herror]
    rw [World.run_bind, run_report, World.say_say, List.append_nil, htold,
      ToolOutcome.succeeded_eq_false herror]
    rfl

/-- Running tools, after something has been written to the streams. -/
theorem run_runTools (tools : List Invocation) (s : World) (out err : Bytes) :
    ∃ trace result stop log, ToolRuns s tools trace result stop ∧
      (w.runTools tools : StateM World _).run (s.say out err) =
        (result, stop.say (out ++ w.told trace) (err ++ log)) := by
  induction tools generalizing s out err with
  | nil =>
    refine ⟨[], .ok (), s, [], .nil s, ?_⟩
    rw [told_nil, List.append_nil, List.append_nil]
    rfl
  | cons i tools ih =>
    obtain ⟨log, hrun⟩ := run_runTool hcancelled i (s.say out err)
    rcases hinvoke : s.invoke i with ⟨o, s'⟩
    rw [World.invoke_say, hinvoke, World.say_say] at hrun
    rw [runTools, World.run_bind, hrun]
    cases herror : o.error? i with
    | none =>
      obtain ⟨trace, result, stop, log', hruns, hrest⟩ :=
        ih s' (out ++ w.told [(i, o)]) (err ++ log)
      refine ⟨(i, o) :: trace, result, stop, log ++ log',
        hruns.next hinvoke (ToolOutcome.error?_eq_none_iff.1 herror), ?_⟩
      simp only [ToolOutcome.verdict_eq_ok herror]
      rw [hrest, w.told_cons (i, o) trace, List.append_assoc, List.append_assoc]
    | some e =>
      refine ⟨[(i, o)], .error e, s', log, .fails hinvoke herror tools, ?_⟩
      simp only [ToolOutcome.verdict_eq_error herror]
      rfl

end Workshop

end TapeCompiler
