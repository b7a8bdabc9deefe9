import TapeCompiler.Program.Outline
import TapeCompiler.Session.Entry
import TapeCompiler.Target.Choice
import TapeCompiler.Target.Lowering
import TapeCompiler.Text.Style

/-!
# Sessions

A session answers entries one after the other. A program is answered by its
generated code or by its tree, a command by a change of the session's settings.
Only commands change settings, and each changes its own.
-/

namespace TapeCompiler

/-- The settings of a session. -/
structure Session where
  target : Target
  optimized : Bool := false
  labels : LabelScheme := .counter
  /-- Whether programs are answered by their trees. -/
  showTree : Bool := false
  /-- How complaints are shown. -/
  styles : Styles := {}

namespace Session

/-- What a session says to an entry. -/
structure Reply where
  out : String := ""
  err : Bytes := []
  quit : Bool := false
  deriving DecidableEq, Repr

/-- The answer to `:help`. -/
def helpText : String :=
  "Enter a program to see the generated code. Input continues\n" ++
  "on the next line while a loop is open.\n" ++
  "\n" ++
  "  :ast            toggle printing the syntax tree instead of code\n" ++
  "  :target asm|c   select the backend\n" ++
  "  :opt on|off     toggle optimizations\n" ++
  "  :help           show this text\n" ++
  "  :quit           leave the REPL\n" ++
  "\n" ++
  "Any other line is program text, where ':' is just a comment.\n"

/-- The word for a switch. -/
def onOff (b : Bool) : String := if b then "on" else "off"

/-- A complaint, as it stands on the error stream. -/
def complaint (s : Session) (message : String) : Reply :=
  { err := s.styles.error message ++ "\n" }

/-- A remark on the output. It is lost if the output cannot be written. -/
def remark (failure? : Option String) (text : String) : Reply :=
  { out := if failure?.isNone then text else "" }

/-- The session after a command, and the reply. `failure?` is what every write to
    the output fails with, if it does. -/
def obey (s : Session) (failure? : Option String) : Command → Session × Reply
  | .quit => (s, { quit := true })
  | .help => (s, remark failure? helpText)
  | .ast =>
    let shown := !s.showTree
    ({ s with showTree := shown }, remark failure? s!"ast: {onOff shown}\n")
  | .target name =>
    match Target.ofName? name with
    | .error e => (s, s.complaint e.message)
    | .ok t => ({ s with target := t }, remark failure? s!"target: {t.name}\n")
  | .optimize how =>
    if how = "on" then
      ({ s with optimized := true }, remark failure? "optimize: on\n")
    else if how = "off" then
      ({ s with optimized := false }, remark failure? "optimize: off\n")
    else
      (s, s.complaint "usage: :opt on|off")

/-- The reply to a program: its tree or its code. Random labels take `identifiers`. -/
def display (s : Session) (failure? : Option String) (identifiers : Nat → String)
    (p : Program) : Reply :=
  if s.showTree then
    remark failure? (Node.outline (.root p))
  else
    match p.generate ⟨s.target, s.optimized⟩ (s.labels.source identifiers) with
    | .error e => s.complaint e.message
    | .ok code =>
      match failure? with
      | none => { out := code }
      | some message => s.complaint message

/-- The session after an entry, and the reply. -/
def eval (s : Session) (failure? : Option String) (identifiers : Nat → String)
    (entry : Bytes) : Session × Reply :=
  match Command.ofEntry? entry with
  | some command => s.obey failure? command
  | none =>
    match Program.parse (Source.ofBytes "" entry) with
    | .error e => (s, s.complaint e.message)
    | .ok p => (s, s.display failure? identifiers p)

end Session

end TapeCompiler
