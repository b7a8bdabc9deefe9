import TapeCompiler.Config.Load
import TapeCompiler.Toml.Table
import TapeCompiler.Yaml.Tag

/-!
# Decoding settings

Decoders for the runnable program (`Settings.decoders`). Settings are written in TOML or in
YAML, as a table with a table for the toolchain in it. Keys that are not known are passed
over; a value of the wrong type is an error.

The two formats differ in what they let through. In TOML a key may be written in any
case; of keys that differ in case only the last counts. In YAML keys are exact and may not
be repeated, a null leaves its setting alone, and a name takes any scalar as it is written.
-/

namespace TapeCompiler

/-- The names of the settings. -/
def settingNames : List String := ["target", "optimize", "keep_files", "labels", "toolchain"]

/-- The names of the settings of the toolchain. -/
def toolNames : List String := ["assembler", "cc", "cflags", "asflags"]

namespace Toml

/-- The known name that a key stands for: itself, or else one that differs in case
    only. -/
def knownName? (names : List String) (key : String) : Option String :=
  (names.find? (· == key)).orElse fun _ => names.find? (Letter.sameFolded · key)

/-- A value that must be text. -/
def text? : Value → Option String
  | .text s => some s
  | _ => none

/-- A value that must be a truth value. -/
def bool? : Value → Option Bool
  | .bool b => some b
  | _ => none

/-- A value that must be a list of texts. -/
def texts? : Value → Option (List String)
  | .list items => items.mapM text?
  | .tables [] => some []
  | _ => none

/-- The toolchain after one of its keys. -/
def setTool (t : Toolchain) (key : String) (v : Value) : Option Toolchain :=
  match knownName? toolNames key with
  | some "assembler" => (text? v).map fun s => { t with assembler := s }
  | some "cc" => (text? v).map fun s => { t with cc := s }
  | some "cflags" => (texts? v).map fun s => { t with cFlags := s.map Bytes.ofString }
  | some "asflags" => (texts? v).map fun s => { t with asFlags := s.map Bytes.ofString }
  | _ => some t

/-- The settings after one key. -/
def setSetting (s : Settings) (key : String) (v : Value) : Option Settings :=
  match knownName? settingNames key with
  | some "target" => (text? v).map fun x => { s with target := x }
  | some "optimize" => (bool? v).map fun x => { s with optimize := x }
  | some "keep_files" => (bool? v).map fun x => { s with keepFiles := x }
  | some "labels" => (text? v).map fun x => { s with labels := x }
  | some "toolchain" =>
    match v with
    | .table fields =>
      (fields.foldlM (fun t (k, v) => setTool t k v) s.toolchain).map fun t =>
        { s with toolchain := t }
    | _ => none
  | _ => some s

/-- The settings that a TOML document holds. -/
def settings? (bytes : Bytes) : Option Settings := do
  let fields ← read bytes
  fields.foldlM (fun s (k, v) => setSetting s k v) {}

end Toml

namespace Yaml

/-- A node that must be a scalar: its meaning, and its text as it is written. -/
def scalar? : Node → Option (Meaning × Bytes)
  | .scalar tag? text plain =>
    match meaning tag? text plain with
    | some (.text b) => some (.text b, b)
    | some m => some (m, text)
    | none => none
  | .alias _ target => scalar? target
  | _ => none

/-- A node that must be a name. A null leaves it alone. -/
def text? (n : Node) : Option (Option Bytes) :=
  (scalar? n).map fun (m, text) => if m = .null then none else some text

/-- A node that must be a switch. A null leaves it alone. -/
def bool? (n : Node) : Option (Option Bool) :=
  match scalar? n with
  | some (.null, _) => some none
  | some (.bool b, _) => some (some b)
  | some (.text b, _) =>
    if (["y", "Y", "yes", "Yes", "YES", "on", "On", "ON"] : List Bytes).contains b then
      some (some true)
    else if (["n", "N", "no", "No", "NO", "off", "Off", "OFF"] : List Bytes).contains b then
      some (some false)
    else none
  | _ => none

/-- A node that must be a list of names. Nulls among them are left out, and a null in
    its place empties the list. -/
def texts? : Node → Option (List Bytes)
  | .sequence _ items => (items.mapM text?).map (·.filterMap id)
  | .alias _ target => texts? target
  | .scalar tag? text plain => if meaning tag? text plain = some .null then some [] else none
  | _ => none

/-- What two keys must not have in common: their kind, and their text or name. -/
def keyIdentity : Node → String × String
  | .scalar _ text _ => ("scalar", text)
  | .sequence _ _ => ("sequence", "")
  | .mapping _ _ => ("mapping", "")
  | .alias name _ => ("alias", name)
  | .cycle name => ("alias", name)

/-- Whether no key of a mapping is repeated. -/
def distinctKeys : List (Node × Node) → Bool
  | [] => true
  | (k, _) :: rest => rest.all (fun (k', _) => keyIdentity k' != keyIdentity k) && distinctKeys rest

/-- Whether a key merges another mapping into its own. -/
def isMerge : Node → Bool
  | .scalar none "<<" true => true
  | .scalar (some "!!merge") "<<" _ => true
  | _ => false

/-- A mapping behind a node. -/
def pairs? : Node → Option (List (Node × Node))
  | .mapping _ pairs => some pairs
  | .alias _ target => pairs? target
  | _ => none

/-- The names of keys, with their values; a key that is null is passed over. -/
def named (pairs : List (Node × Node)) : Option (List (Bytes × Node)) := do
  let byName ← (pairs.filter fun p => !isMerge p.1).mapM fun (p : Node × Node) => do
    let name? ← text? p.1
    some (name?.map fun name => (name, p.2))
  some (byName.filterMap id)

/-- Pairs by name, and after them those of the others whose names are new. -/
def unite (own others : List (Bytes × Node)) : List (Bytes × Node) :=
  others.foldl (fun acc p => if acc.any (·.1 == p.1) then acc else acc ++ [p]) own

mutual

/-- The pairs by name of the mappings that a mapping merges in, in order. -/
def mergedInto : List (Node × Node) → Option (List (List (Bytes × Node)))
  | [] => some []
  | (key, source) :: rest => if isMerge key then sources source else mergedInto rest

/-- The pairs by name of the mappings that a merge brings in. -/
def sources : Node → Option (List (List (Bytes × Node)))
  | .sequence _ items => sourceList items
  | n => (mapped n).map ([·])

/-- The pairs by name of mappings that stand in a list. -/
def sourceList : List Node → Option (List (List (Bytes × Node)))
  | [] => some []
  | n :: rest => do some ((← mapped n) :: (← sourceList rest))

/-- The pairs by name of the mapping behind a node, those merged into it last; a name that
    stands further in front hides later ones. -/
def mapped : Node → Option (List (Bytes × Node))
  | .mapping _ pairs => do
    if !distinctKeys pairs then none
    some ((← mergedInto pairs).foldl unite (← named pairs))
  | .alias _ target => mapped target
  | _ => none

end

/-- The pairs of a mapping by name. Keys that differ as nodes can still have one name;
    a known name may not be repeated in this way. -/
def fieldsOf (known : List String) (pairs : List (Node × Node)) : Option (List (Bytes × Node)) := do
  let own ← named pairs
  if known.any fun name => 1 < (own.filter (·.1 == Bytes.ofString name)).length then none
  mapped (.mapping none pairs)

/-- A setting after a node that may leave it alone. -/
def keep {α : Type} (old : α) (r : Option (Option α)) : Option α :=
  r.map fun new? => new?.getD old

/-- The toolchain after one of its keys. -/
def setTool (t : Toolchain) (key : Bytes) (v : Node) : Option Toolchain :=
  if key = "assembler" then (keep t.assembler (text? v)).map fun b => { t with assembler := b }
  else if key = "cc" then (keep t.cc (text? v)).map fun b => { t with cc := b }
  else if key = "cflags" then (texts? v).map fun bs => { t with cFlags := bs }
  else if key = "asflags" then (texts? v).map fun bs => { t with asFlags := bs }
  else some t

/-- The toolchain that a node describes. A null leaves it alone. -/
def toolchain? (t : Toolchain) (n : Node) : Option Toolchain :=
  match pairs? n with
  | some pairs => do
    let fs ← fieldsOf toolNames pairs
    fs.foldlM (fun t (k, v) => setTool t k v) t
  | none =>
    match scalar? n with
    | some (.null, _) => some t
    | _ => none

/-- The settings after one key. -/
def setSetting (s : Settings) (key : Bytes) (v : Node) : Option Settings :=
  if key = "target" then (keep s.target (text? v)).map fun x => { s with target := x }
  else if key = "optimize" then (keep s.optimize (bool? v)).map fun x => { s with optimize := x }
  else if key = "keep_files" then (keep s.keepFiles (bool? v)).map fun x => { s with keepFiles := x }
  else if key = "labels" then (keep s.labels (text? v)).map fun x => { s with labels := x }
  else if key = "toolchain" then (toolchain? s.toolchain v).map fun t => { s with toolchain := t }
  else some s

/-- The settings that the root of a document describes. -/
def rootSettings? (root : Node) : Option Settings :=
  match pairs? root with
  | some pairs => do
    let fs ← fieldsOf settingNames pairs
    fs.foldlM (fun s (k, v) => setSetting s k v) {}
  | none =>
    match scalar? root with
    | some (.null, _) => some {}
    | _ => none

/-- The settings that a YAML document holds. -/
def settings? (bytes : Bytes) : Option Settings := do
  let text ← characters bytes
  match ← document text with
  | none => some {}
  | some root => rootSettings? root

end Yaml

/-- The decoders of the runnable program. -/
def Settings.decoders : Settings.Decoders
  | .toml, content =>
    match Toml.settings? content with
    | some s => .ok s
    | none => .error "malformed TOML"
  | .yaml, content =>
    match Yaml.settings? content with
    | some s => .ok s
    | none => .error "malformed YAML"

end TapeCompiler
