import TapeCompiler.CommandLine.Error
import TapeCompiler.Document.Json
import TapeCompiler.Document.Yaml
import TapeCompiler.Program.Document
import TapeCompiler.Program.Outline
import TapeCompiler.Text.Column

/-!
# Showing tokens and trees

Instead of compiling a source, its tokens or its tree can be shown.
-/

namespace TapeCompiler.CommandLine

/-- One row of the table of tokens. -/
def tokenRow (position token : String) : String :=
  String.ofList (Column.padTo 20 position.toList) ++ " " ++ token ++ "\n"

/-- The table of tokens, with its two lines of heading. -/
def tokenTable (tokens : List Located) : String :=
  let heading := [tokenRow "POSITION" "TOKEN", tokenRow "--------------------" "-----"]
  String.join (heading ++ tokens.map fun t => tokenRow t.pos.text t.token.text)

/-- The text of a tree in the named format. -/
def treeText (format : Bytes) (p : Program) : Except RunError String :=
  if format = "json" then (Node.document (.root p)).json.mapError .unwritable
  else if format = "yaml" then .ok (Node.document (.root p)).yaml
  else if format = "text" || format.isEmpty then .ok (Node.outline (.root p))
  else .error (.unknownTreeFormat format)

variable {m : Type → Type} [Monad m] [Host m]

/-- The source in a file. That it cannot be opened is an error here; that it cannot be
    read is for its reader to find. -/
def openSource (file : Bytes) : m (Except RunError Source) := do
  match ← Host.readFile file with
  | .ok text => return .ok (Source.ofBytes file.text text)
  | .error e =>
    match e.operation with
    | .open => return .error (.unopened e)
    | _ => return .ok ⟨file.text, .error e.message.text⟩

/-- Shows the tokens of a source. -/
def showTokens (file : Bytes) : m (Except RunError Unit) := do
  match ← openSource file with
  | .error e => return .error e
  | .ok source =>
    match source.failure? with
    | some cause => return .error (.unparsable (.unreadable cause))
    | none =>
      Host.print (tokenTable source.tokens)
      return .ok ()

/-- Shows the tree of a source. -/
def showTree (file format : Bytes) : m (Except RunError Unit) := do
  match ← openSource file with
  | .error e => return .error e
  | .ok source =>
    match Program.parse source with
    | .error e => return .error (.unparsable e)
    | .ok p =>
      match treeText format p with
      | .error e => return .error e
      | .ok text =>
        Host.print text
        return .ok ()

end TapeCompiler.CommandLine
