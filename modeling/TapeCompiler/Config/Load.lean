import TapeCompiler.Config.Settings
import TapeCompiler.File.Path
import TapeCompiler.Host.Basic

/-!
# Finding and loading settings

The file with the settings is the one asked for, else the one that the environment
names, else the first one that exists among a few usual places. Without any the
defaults hold.

How the content of a file is decoded is left open: each format comes with a decoder
(`Settings.Decoders`), which gives settings or says why it cannot.
-/

namespace TapeCompiler

/-- Why settings could not be loaded. -/
inductive ConfigError where
  | notFound (path : Bytes)
  | unreadable (e : FileError)
  | unparsable (path detail : Bytes)
  /-- The settings of a file are invalid. -/
  | invalid (path : Bytes) (e : InvalidSettings)
  deriving DecidableEq, Repr

/-- The wording of the error. -/
def ConfigError.message : ConfigError → Bytes
  | notFound path => "config file not found: " ++ path
  | unreadable e => "failed to read config: " ++ e.message
  | unparsable path detail => "failed to parse config " ++ path ++ ": " ++ detail
  | invalid path e => path ++ ": " ++ e.message

namespace Settings

/-- The environment variable that names a file with settings. -/
def fileVariable : Bytes := "BFC_CONFIG"

/-- The two formats of files with settings. -/
inductive FileFormat where
  | toml
  | yaml
  deriving DecidableEq, Repr

/-- The format that the extension of a path asks for. -/
def FileFormat.ofPath (path : Bytes) : FileFormat :=
  let ext := Path.ext path
  if Letter.isWord ".yaml" ext || Letter.isWord ".yml" ext then .yaml else .toml

/-- The settings that a file content holds in each format, without defaults, or what is
    wrong with it. -/
abbrev Decoders := FileFormat → Bytes → Except Bytes Settings

variable {m : Type → Type} [Monad m] [Host m]

/-- The content of a file with settings, decoded. That the file cannot be read is told by
    the decoder of one of the formats. -/
def decodeFile (decoders : Decoders) (path : Bytes) : m (Except ConfigError Settings) := do
  let format := FileFormat.ofPath path
  match ← Host.readFile path with
  | .error e =>
    match format with
    | .yaml => return .error (.unreadable e)
    | .toml => return .error (.unparsable path e.message)
  | .ok content =>
    match decoders format content with
    | .error detail => return .error (.unparsable path detail)
    | .ok s => return .ok s

/-- The settings with variables replaced in the names of the tools. -/
def expandTools (s : Settings) : m Settings := do
  let assembler ← Host.expandEnv s.toolchain.assembler
  let cc ← Host.expandEnv s.toolchain.cc
  return { s with toolchain := { s.toolchain with assembler, cc } }

/-- Loads the settings of a file. -/
def load (decoders : Decoders) (path : Bytes) : m (Except ConfigError Settings) := do
  let path ← Host.expandEnv path
  match ← Host.stat path with
  | .error .noSuchFile => return .error (.notFound path)
  | _ =>
    match ← decodeFile decoders path with
    | .error e => return .error e
    | .ok raw =>
      let expanded ← expandTools raw.withDefaults
      let s := { expanded with source? := some path }
      match s.validate with
      | .error e => return .error (.invalid path e)
      | .ok () => return .ok s

/-- The places where settings are looked for. -/
def searchPaths : m (List Bytes) := do
  let home ← Host.getEnv "HOME"
  let here : List Bytes := ["./bfc.toml", "./bfc.yaml"]
  match home with
  | some home =>
    if home.isEmpty then return here
    else return here ++ [Path.join [home, ".config", "bfc", "config.toml"]]
  | none => return here

/-- The first of these paths where something is. -/
def firstExisting : List Bytes → m (Option Bytes)
  | [] => return none
  | path :: rest => do
    match ← Host.stat path with
    | .ok _ => return some path
    | .error _ => firstExisting rest

/-- The settings in effect; `explicit` is the file asked for, if not empty. -/
def discover (decoders : Decoders) (explicit : Bytes) : m (Except ConfigError Settings) := do
  if !explicit.isEmpty then load decoders explicit
  else
    let named ← Host.getEnv fileVariable
    if named.getD [] ≠ [] then load decoders (named.getD [])
    else
      match ← firstExisting (← searchPaths) with
      | some path => load decoders path
      | none => return .ok Settings.default

end Settings

end TapeCompiler
