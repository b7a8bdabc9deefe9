import TapeCompiler.File.Tree
import TapeCompiler.Host.Basic
import TapeCompiler.Host.Expansion
import TapeCompiler.Session.Line

/-!
# A model of a host

A world holds everything a host can do as plain data: a tree of files, an environment,
the texts of the streams and a clock that stands still. Functions that can be chosen at
will tell what a file does when it is executed, which can change files in any way, how
environment variables are replaced in a text, and which random identifiers there are.
-/

namespace TapeCompiler

/-- What a program does: the files after the run, and the result, from the files before
    it, the working directory and the arguments. -/
abbrev ProgramBehaviour := FileTree → Place → List Bytes → FileTree × ProgramResult

/-- One run of a program: the name of its file, and its arguments. -/
structure ProgramRun where
  name : Bytes
  args : List Bytes
  deriving DecidableEq, Repr

/-- A model of a host. -/
structure World where
  files : FileTree := {}
  cwd : Place := []
  env : List (Bytes × Bytes) := []
  /-- How a text is expanded, given the values of variables. -/
  expansion : (Bytes → Bytes) → Bytes → Bytes := Expansion.expand
  /-- What the content of an executable file does. -/
  behaviour : Bytes → Option ProgramBehaviour := fun _ => none
  stdin : Bytes := []
  stdout : Bytes := []
  stderr : Bytes := []
  /-- The programs that were run, in order. -/
  runs : List ProgramRun := []
  /-- The time in nanoseconds since 1970. -/
  now : Nat := 0
  /-- The random identifiers. -/
  identifiers : Nat → Nat → String := fun _ n => toString n
  /-- How often identifiers were asked for. -/
  drawn : Nat := 0

namespace World

/-- The value of an environment variable; that of one that is not set is empty. -/
def value (w : World) (name : Bytes) : Bytes :=
  (w.env.lookup name).getD []

/-- A text with the environment variables in it replaced by their values. -/
def expandEnv (w : World) (text : Bytes) : Bytes :=
  w.expansion w.value text

/-- Runs the program at a path. -/
def execute (w : World) (path : Bytes) (args : List Bytes) :
    Except FileError ProgramResult × World :=
  match w.files.find w.cwd path with
  | .error e => (.error ⟨.execute, path, e⟩, w)
  | .ok (_, .directory) => (.error ⟨.execute, path, .permission⟩, w)
  | .ok (_, .file _ false) => (.error ⟨.execute, path, .permission⟩, w)
  | .ok (place, .file content true) =>
    match w.behaviour content with
    | none => (.error ⟨.execute, path, .other "exec format error"⟩, w)
    | some program =>
      let (files, result) := program w.files w.cwd args
      (.ok result, { w with files, runs := w.runs ++ [⟨place.getLastD [], args⟩] })

/-- A change of the files that can be refused. -/
def update (r : Except FileError FileTree) (w : World) : Except FileError Unit × World :=
  match r with
  | .error e => (.error e, w)
  | .ok files => (.ok (), { w with files })

/-- Feeds lines to a machine until it stops or the lines end. -/
def feed {σ : Type} (step : σ → Option Bytes → StateM World (Option σ)) (s : σ) :
    List Bytes → StateM World Unit
  | [] => do
    let _ ← step s none
    return ()
  | line :: rest => do
    match ← step s (some line) with
    | none => return ()
    | some s => feed step s rest

end World

instance : Host (StateM World) where
  getEnv name := fun w => (w.env.lookup name, w)
  expandEnv text := fun w => (w.expandEnv text, w)
  stat path := fun w => (w.files.stat w.cwd path, w)
  readFile path := fun w => (w.files.readFile w.cwd path, w)
  writeFile path content := fun w => w.update (w.files.writeFile w.cwd path content)
  remove path := fun w => w.update (w.files.remove w.cwd path)
  execute path args := fun w => w.execute path args
  print text := fun w => ((), { w with stdout := w.stdout ++ text })
  printError text := fun w => ((), { w with stderr := w.stderr ++ text })
  feedLines s step := fun w => World.feed step s (Session.inputLines w.stdin) w
  now := fun w => (w.now, w)
  identifiers := fun w => (w.identifiers w.drawn, { w with drawn := w.drawn + 1 })

end TapeCompiler
