import TapeCompiler.Text.Quoted

/-!
# Flags

Flags are written with two dashes and a name, or with one dash and a letter. A switch is
on when it is named and takes a value only after an equals sign; any other flag takes
the rest of its word or the next word. Letters of switches can be written together.
Two dashes by themselves end the flags; all else is an argument.
-/

namespace TapeCompiler.CommandLine

/-- The flags. -/
inductive Flag where
  | config
  | verbose
  | output
  | optimize
  | assembly
  | c
  | keepFiles
  | ast
  | astFormat
  | emitTokens
  | labels
  | target
  | help
  deriving DecidableEq, Repr

namespace Flag

/-- The name of a flag. -/
def name : Flag → String
  | config => "config"
  | verbose => "verbose"
  | output => "output"
  | optimize => "optimize"
  | assembly => "assembly"
  | c => "c"
  | keepFiles => "keep-files"
  | ast => "ast"
  | astFormat => "ast-format"
  | emitTokens => "emit-tokens"
  | labels => "labels"
  | target => "target"
  | help => "help"

/-- The letter of a flag, if it has one. -/
def letter? : Flag → Option Char
  | verbose => some 'v'
  | output => some 'o'
  | optimize => some 'O'
  | assembly => some 'S'
  | c => some 'C'
  | target => some 't'
  | help => some 'h'
  | _ => none

/-- Whether a flag is on or off rather than holding a text. -/
def isSwitch : Flag → Bool
  | verbose | optimize | assembly | c | keepFiles | ast | emitTokens | help => true
  | _ => false

/-- The flags that every command knows. -/
def shared : List Flag := [config, verbose]

/-- The flags of compiling. -/
def forCompiling : List Flag :=
  shared ++ [output, optimize, assembly, c, keepFiles, ast, astFormat, emitTokens, labels, target]

/-- A flag as it is called in messages. -/
def title (f : Flag) : String :=
  match f.letter? with
  | some l => String.ofList ['-', l] ++ ", --" ++ f.name
  | none => "--" ++ f.name

/-- The flag with the given name among those known. -/
def ofName? (known : List Flag) (name : Bytes) : Option Flag :=
  known.find? fun f => name == Bytes.ofString f.name

/-- The flag with the given letter among those known. -/
def ofLetter? (known : List Flag) (letter : UInt8) : Option Flag :=
  known.find? fun f => f.letter?.map Char.toUInt8 == some letter

end Flag

/-- What is wrong with a command line. -/
inductive UsageError where
  | badSyntax (word : Bytes)
  | unknownFlag (name : Bytes)
  | unknownLetter (letters : Bytes)
  | missingValue (word : Bytes)
  | missingLetterValue (letters : Bytes)
  | badSwitch (flag : Flag) (value : Bytes)
  | argumentCount (found : Nat)
  | unexpectedArgument (word : Bytes) (command : String)
  deriving DecidableEq, Repr

/-- The first byte of a text as a character in quotes. -/
def firstByteQuoted (letters : Bytes) : String :=
  match letters with
  | b :: _ => Quoted.char (Char.ofNat b.toNat)
  | [] => ""

/-- The wording of the error. -/
def UsageError.message : UsageError → Bytes
  | badSyntax word => "bad flag syntax: " ++ word
  | unknownFlag name => "unknown flag: --" ++ name
  | unknownLetter letters =>
    s!"unknown shorthand flag: {firstByteQuoted letters} in -" ++ letters
  | missingValue word => "flag needs an argument: " ++ word
  | missingLetterValue letters =>
    s!"flag needs an argument: {firstByteQuoted letters} in -" ++ letters
  | badSwitch flag value =>
    let quoted := Quoted.bytes value
    let title := Quoted.string flag.title
    s!"invalid argument {quoted} for {title} flag: strconv.ParseBool: parsing {quoted}: invalid syntax"
  | argumentCount found => s!"accepts 1 arg(s), received {found}"
  | unexpectedArgument word command => s!"unknown command {Quoted.bytes word} for \"bfc {command}\""

/-- The truth value that a word stands for. -/
def switch? (word : Bytes) : Option Bool :=
  if (["1", "t", "T", "TRUE", "true", "True"] : List Bytes).contains word then some true
  else if (["0", "f", "F", "FALSE", "false", "False"] : List Bytes).contains word then some false
  else none

/-- A flag and the value given to it. A switch has the value of a truth value. -/
structure Assignment where
  flag : Flag
  value : Bytes
  deriving DecidableEq, Repr

/-- Gives a flag a value, which for a switch must be a truth value. -/
def assign (f : Flag) (value : Bytes) : Except UsageError Assignment :=
  if f.isSwitch && (switch? value).isNone then .error (.badSwitch f value) else .ok ⟨f, value⟩

/-- What a word with flags gives: their values, and whether the next word was used up. -/
structure FlagWord where
  assignments : List Assignment
  usesNext : Bool := false
  deriving DecidableEq, Repr

/-- The byte that starts a flag. -/
def dash : UInt8 := 0x2D

/-- The byte between a flag and its value. -/
def equals : UInt8 := 0x3D

/-- Reads a word of two dashes and a name; `next?` is the word after it. -/
def longFlag (known : List Flag) (word : Bytes) (next? : Option Bytes) :
    Except UsageError FlagWord :=
  let body := word.drop 2
  let name := body.takeWhile (· != equals)
  match body with
  | [] => .error (.badSyntax word)
  | b :: _ =>
    if b = dash || b = equals then .error (.badSyntax word)
    else
      match Flag.ofName? known name with
      | none => .error (.unknownFlag name)
      | some f =>
        match body.dropWhile (· != equals) with
        | _ :: value => (assign f value).map fun a => ⟨[a], false⟩
        | [] =>
          if f.isSwitch then .ok ⟨[⟨f, "true"⟩], false⟩
          else
            match next? with
            | some value => (assign f value).map fun a => ⟨[a], true⟩
            | none => .error (.missingValue word)

/-- Reads the letters of a word of one dash; `acc` holds the values given so far, the
    last one first. Letters that start with `test.` are passed over. -/
def letterFlags (known : List Flag) (next? : Option Bytes) (acc : List Assignment) :
    Bytes → Except UsageError FlagWord
  | [] => .ok ⟨acc.reverse, false⟩
  | letter :: rest =>
    if (Bytes.ofString "test.").isPrefixOf (letter :: rest) then .ok ⟨acc.reverse, false⟩
    else
      match Flag.ofLetter? known letter with
      | none => .error (.unknownLetter (letter :: rest))
      | some f =>
        if rest.head? = some equals && 1 < rest.length then
          (assign f (rest.drop 1)).map fun a => ⟨(a :: acc).reverse, false⟩
        else if f.isSwitch then
          letterFlags known next? (⟨f, "true"⟩ :: acc) rest
        else if !rest.isEmpty then
          (assign f rest).map fun a => ⟨(a :: acc).reverse, false⟩
        else
          match next? with
          | some value => (assign f value).map fun a => ⟨(a :: acc).reverse, true⟩
          | none => .error (.missingLetterValue (letter :: rest))

/-- A command line taken apart. -/
structure Arguments where
  assignments : List Assignment := []
  words : List Bytes := []
  deriving DecidableEq, Repr

/-- Whether a word is an argument and no flag. A dash by itself is an argument. -/
def isArgument (word : Bytes) : Bool :=
  word.head? != some dash || word.length = 1

/-- Takes the words of a command line apart. -/
def argumentsOnto (known : List Flag) (acc : Arguments) :
    List Bytes → Except UsageError Arguments
  | [] => .ok acc
  | word :: rest =>
    if isArgument word then
      argumentsOnto known { acc with words := acc.words ++ [word] } rest
    else if word = [dash, dash] then
      .ok { acc with words := acc.words ++ rest }
    else
      let read :=
        if word.take 2 = [dash, dash] then longFlag known word rest.head?
        else letterFlags known rest.head? [] (word.drop 1)
      match read with
      | .error e => .error e
      | .ok r =>
        let acc := { acc with assignments := acc.assignments ++ r.assignments }
        match r.usesNext, rest with
        | true, _ :: rest => argumentsOnto known acc rest
        | _, rest => argumentsOnto known acc rest

/-- Takes the words of a command line apart, by the flags that are known. -/
def arguments (known : List Flag) (words : List Bytes) : Except UsageError Arguments :=
  argumentsOnto (known ++ [.help]) {} words

end TapeCompiler.CommandLine
