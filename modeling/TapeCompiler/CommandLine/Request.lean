import TapeCompiler.CommandLine.Flag
import TapeCompiler.CommandLine.Options

/-!
# Requests

A command line asks to compile a file, or, by the first word that is neither a flag nor
the value of one, for one of the other commands. The flags that a command knows also
count before its word. Some commands are those of the library that reads command lines:
they show how to use the program, and complete what is typed in a shell.
-/

namespace TapeCompiler.CommandLine

/-- The options after one more flag. -/
def Options.take (o : Options) (a : Assignment) : Options :=
  let on := (switch? a.value).getD false
  match a.flag with
  | .config => { o with configFile := a.value }
  | .verbose => { o with verbose := on }
  | .output => { o with output := a.value }
  | .optimize => { o with optimize := ⟨on, true⟩ }
  | .assembly => { o with assembly := on }
  | .c => { o with c := on }
  | .keepFiles => { o with keepFiles := ⟨on, true⟩ }
  | .ast => { o with dumpTree := on }
  | .astFormat => { o with treeFormat := a.value }
  | .emitTokens => { o with listTokens := on }
  | .labels => { o with labels := ⟨a.value, true⟩ }
  | .target => { o with target := ⟨a.value, true⟩ }
  | .help => o

/-- What the flags say; the last value of a flag counts. -/
def Options.ofAssignments (as : List Assignment) : Options :=
  as.foldl Options.take {}

/-- Whether the flags ask for help; the last value counts. -/
def asksForHelp (as : List Assignment) : Bool :=
  ((as.filter (·.flag = .help)).getLast?.bind fun a => switch? a.value).getD false

namespace Command

/-- The word for a command. -/
def word : Command → String
  | version => "version"
  | doctor => "doctor"
  | session => "repl"

/-- The command with the given word. -/
def ofWord? (w : Bytes) : Option Command :=
  [version, doctor, session].find? fun c => w == Bytes.ofString c.word

end Command

/-- The words for the commands of the library. -/
def libraryWords : List Bytes := ["help", "completion", "__complete", "__completeNoDesc"]

/-- Whether a word is a flag that takes the next word for its value. A flag that is not
    known is taken to do so. -/
def takesNext (known : List Flag) (word : Bytes) : Bool :=
  !word.contains equals && word.head? == some dash &&
    match word.drop 1 with
    | [letter] => !(Flag.ofLetter? known letter).any Flag.isSwitch
    | b :: name => b == dash && !(Flag.ofName? known name).any Flag.isSwitch
    | [] => false

/-- The first word that is neither a flag nor the value of one. A flag that would take
    the very last word hides it. -/
def firstWord? (known : List Flag) : List Bytes → Option Bytes
  | [] => none
  | word :: rest =>
    if word = [dash, dash] then none
    else if takesNext known word then
      match rest with
      | _ :: rest => if rest.isEmpty then none else firstWord? known rest
      | [] => none
    else if !word.isEmpty && word.head? != some dash then some word
    else firstWord? known rest

/-- The words without the first one that equals `target` and is neither a flag nor the
    value of one. -/
def withoutWord (known : List Flag) (target : Bytes) : List Bytes → List Bytes
  | [] => []
  | word :: rest =>
    if word = [dash, dash] then word :: rest
    else if takesNext known word then
      match rest with
      | value :: rest => word :: value :: withoutWord known target rest
      | [] => [word]
    else if word.head? != some dash && word = target then rest
    else word :: withoutWord known target rest

/-- The request to compile that these words make. -/
def compileRequest (words : List Bytes) : Except UsageError Request :=
  match arguments Flag.forCompiling words with
  | .error e => .error e
  | .ok args =>
    if asksForHelp args.assignments then .ok (.manual words)
    else
      match args.words with
      | [file] => .ok (.compile (.ofAssignments args.assignments) file)
      | others => .error (.argumentCount others.length)

/-- The request for a command that these words make; `others` are those beside its own. -/
def commandRequest (c : Command) (words others : List Bytes) : Except UsageError Request :=
  match arguments Flag.shared others with
  | .error e => .error e
  | .ok args =>
    if asksForHelp args.assignments then .ok (.manual words)
    else
      match args.words with
      | [] => .ok (.command (.ofAssignments args.assignments) c)
      | word :: _ => .error (.unexpectedArgument word c.word)

/-- What a command line asks for. -/
def request (words : List Bytes) : Except UsageError Request :=
  match firstWord? Flag.forCompiling words with
  | none => compileRequest words
  | some first =>
    if libraryWords.contains first then .ok (.manual words)
    else
      match Command.ofWord? first with
      | some c => commandRequest c words (withoutWord Flag.forCompiling first words)
      | none => compileRequest words

end TapeCompiler.CommandLine
