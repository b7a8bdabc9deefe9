import TapeCompiler.CommandLine.Compile
import TapeCompiler.Session.Basic
import TapeCompiler.Session.History

/-!
# Sessions on the command line

A session shows a prompt, reads a line, and answers when an entry is complete, until it
is told to quit or the input ends. Its entries go to the history, which is read when it
starts and written when it is over.
-/

namespace TapeCompiler.CommandLine

/-- The version of the program. -/
def versionNumber : String := "0.1.0"

/-- A session in progress: what has been read of an entry, and the history. -/
structure Shell where
  session : Session
  pending : Bytes := []
  history : Session.History := {}
  historyFile : Bytes

namespace Shell

variable {m : Type → Type} [Monad m] [Host m]

/-- Shows the prompt for the next line. -/
def prompt (s : Shell) : m Unit :=
  Host.print (Session.promptFor s.pending)

/-- Writes the history. If that fails, nothing happens. -/
def close (s : Shell) : m Unit := do
  let _ ← Host.writeFile s.historyFile s.history.toFile
  return ()

/-- Answers a complete entry; without a shell in return, the session is over. Entries of
    blanks are passed over. -/
def answer (s : Shell) (entry : Bytes) : m (Option Shell) := do
  if Blank.isAllBlank entry then return some { s with pending := [] }
  else
    let identifiers ← Host.identifiers
    let (session, reply) := s.session.eval none identifiers entry
    Host.print reply.out
    Host.printError reply.err
    let s := { s with session, pending := [], history := s.history.record entry }
    if reply.quit then
      s.close
      return none
    else
      return some s

/-- Takes the next line, or the end of the input. -/
def take (s : Shell) : Option Bytes → m (Option Shell)
  | none => do
    Host.print "\n"
    s.close
    return none
  | some line => do
    let entry := Session.extend s.pending line
    if Session.isFinished entry then
      match ← s.answer entry with
      | none => return none
      | some s =>
        s.prompt
        return some s
    else
      let s := { s with pending := entry }
      s.prompt
      return some s

end Shell

variable {m : Type → Type} [Monad m] [Host m]

/-- The history in a file; empty if there is none. -/
def loadHistory (file : Bytes) : m Session.History := do
  match ← Host.readFile file with
  | .ok content => return .ofFile content
  | .error _ => return {}

/-- Runs a session. -/
def interact (session : Session) : m Unit := do
  Host.print (session.styles.title s!"bfc {versionNumber}" ++
    session.styles.dim "  (:help for commands)" ++ "\n")
  let home ← Host.getEnv "HOME"
  let historyFile := Path.join [home.getD [], ".bfc_history"]
  let history ← loadHistory historyFile
  let shell : Shell := { session, history, historyFile }
  shell.prompt
  Host.feedLines shell fun s line? => s.take line?

/-- Runs a session with the settings in effect. -/
def startSession (decoders : Settings.Decoders) (styles : Styles) (o : Options) :
    m (Except RunError Unit) := do
  match ← settle decoders o with
  | .error e => return .error e
  | .ok s =>
    match Target.ofName? s.target with
    | .error e => return .error (.unknownTarget e)
    | .ok target =>
      interact { target, optimized := s.optimize, labels := .ofName s.labels, styles }
      return .ok ()

end TapeCompiler.CommandLine
