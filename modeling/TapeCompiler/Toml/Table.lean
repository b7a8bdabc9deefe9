import TapeCompiler.Toml.Grammar

/-!
# Tables of TOML

The statements of a document fill one table. A header puts a table into effect, and
the pairs after it go there. A key with dots, a header with dots and an inline table
bring tables into being on the way; such a table is *implicit*, and may be stated
once more. Anything else is stated once, with one exception: a key whose value was
last written as a list may be stated again, and the later value stands.
-/

namespace TapeCompiler.Toml

/-- A value of a document. -/
inductive Value where
  | text (s : String)
  | bool (b : Bool)
  | integer (n : Int)
  | float
  | moment
  | list (items : List Value)
  | table (fields : List (String × Value))
  /-- A list of tables that grows by headers. Its last table is the one in effect. -/
  | tables (elements : List (List (String × Value)))
  deriving Repr

/-- The fields of a table. No key occurs twice. -/
abbrev Fields := List (String × Value)

namespace Fields

/-- Gives a key a value, in the place of the old one if there is one. -/
def put (fields : Fields) (key : String) (v : Value) : Fields :=
  if fields.any (·.1 == key) then
    fields.map fun (k, old) => if k == key then (k, v) else (k, old)
  else
    fields ++ [(key, v)]

/-- The fields of the table in effect at a path. -/
def at? : List String → Fields → Option Fields
  | [], fields => some fields
  | key :: path, fields =>
    match fields.lookup key with
    | some (.table inner) => at? path inner
    | some (.tables elements) => (elements.getLast?).bind (at? path)
    | _ => none

/-- Replaces the fields of the table in effect at a path. -/
def setAt (new : Fields) : List String → Fields → Fields
  | [], _ => new
  | key :: path, fields =>
    match fields.lookup key with
    | some (.table inner) => fields.put key (.table (setAt new path inner))
    | some (.tables elements) =>
      fields.put key (.tables (elements.dropLast ++ [setAt new path (elements.getLastD [])]))
    | _ => fields

end Fields

/-- A document being built. -/
structure Builder where
  fields : Fields := []
  /-- The paths of implicit tables. -/
  implicit : List (List String) := []
  /-- The paths whose value was last written as a list. -/
  lists : List (List String) := []
  /-- The path of the table in effect. -/
  context : List String := []
  deriving Repr

namespace Builder

/-- Marks a path as implicit. -/
def markImplicit (b : Builder) (path : List String) : Builder :=
  { b with implicit := path :: b.implicit }

/-- Takes the mark of an implicit table off a path. -/
def unmarkImplicit (b : Builder) (path : List String) : Builder :=
  { b with implicit := b.implicit.filter (· != path) }

/-- Notes whether a key of the table in effect holds a list. The empty key stands for
    the table itself. -/
def note (b : Builder) (key : String) (isList : Bool) : Builder :=
  let path := if key.isEmpty then b.context else b.context ++ [key]
  let path := if path.isEmpty then [""] else path
  let others := b.lists.filter (· != path)
  { b with lists := if isList then path :: others else others }

/-- Puts a value at a key of the table in effect, whatever is there. -/
def put (b : Builder) (here : Fields) (key : String) (v : Value) : Builder :=
  { b with fields := Fields.setAt (here.put key v) b.context b.fields }

/-- States a key of the table in effect. -/
def assign (b : Builder) (key : String) (v : Value) : Option Builder := do
  let here ← Fields.at? b.context b.fields
  let path := b.context ++ [key]
  if (here.lookup key).isNone then
    some (b.put here key v)
  else if b.lists.contains path then
    some ((b.unmarkImplicit path).put here key v)
  else if b.implicit.contains path then
    some (b.unmarkImplicit path)
  else
    none

/-- Goes down a path from the table in effect, with implicit tables where there is
    nothing yet. -/
def descend (b : Builder) : List String → Option Builder
  | [] => some b
  | key :: path => do
    let here ← Fields.at? b.context b.fields
    let down := b.context ++ [key]
    match here.lookup key with
    | none => descend { (b.markImplicit down).put here key (.table []) with context := down } path
    | some (.table _) => descend { b with context := down } path
    | some (.tables _) => descend { b with context := down } path
    | some _ => none

/-- Adds a table to the list of tables at a key of the table in effect. -/
def addElement (b : Builder) (key : String) : Option Builder := do
  let here ← Fields.at? b.context b.fields
  match here.lookup key with
  | none => some (b.put here key (.tables [[]]))
  | some (.tables elements) => some (b.put here key (.tables (elements ++ [[]])))
  | some _ => none

/-- Puts the table at a path from the top into effect. As an element, it is a new table
    of the list there. -/
def enter (b : Builder) (path : List String) (asElement : Bool) : Option Builder := do
  let b ← { b with context := [] }.descend path.dropLast
  let key := path.getLastD ""
  let b ← if asElement then b.addElement key else b.assign key (.table [])
  some { b with context := b.context ++ [key] }

/-- Puts the tables in front of the last part of a key into effect, one after the
    other. -/
def enterParents (b : Builder) : List String → Option Builder
  | [] => some b
  | [_] => some b
  | key :: path => do
    let down := b.context ++ [key]
    let b ← (b.markImplicit down).enter down false
    b.enterParents path

end Builder

/-- Puts a value into a table of its own at a key with dots. -/
def Fields.putPath (v : Value) : List String → Fields → Option Fields
  | [], _ => none
  | [key], fields => some (fields.put key v)
  | key :: path, fields =>
    match fields.lookup key with
    | none => (putPath v path []).map fun inner => fields.put key (.table inner)
    | some (.table old) => (putPath v path old).map fun inner => fields.put key (.table inner)
    | some _ => none

mutual

/-- The value of a written value at a key of the table in effect. An inline table also
    fills the document in its place; inside a list, as an element of a list of
    tables. -/
def Written.store (b : Builder) (key : String) (inList : Bool) :
    Written → Option (Value × Builder)
  | .text s => some (.text s, b)
  | .bool x => some (.bool x, b)
  | .integer n => some (.integer n, b)
  | .float => some (.float, b)
  | .moment => some (.moment, b)
  | .list items => Written.storeItems (b.note key true) key [] items
  | .table pairs =>
    let path := b.context ++ [key]
    match (b.markImplicit path).enter path inList with
    | none => none
    | some inner =>
      match Written.storePairs inner path [] pairs with
      | none => none
      | some (fields, inner) => some (.table fields, { inner with context := b.context })

/-- The values of a list. -/
def Written.storeItems (b : Builder) (key : String) (acc : List Value) :
    List Written → Option (Value × Builder)
  | [] => some (.list acc.reverse, b)
  | w :: rest =>
    match Written.store b key true w with
    | none => none
    | some (v, b) => Written.storeItems b key (v :: acc) rest

/-- The pairs of an inline table at `path`, put into the document and into a table of
    their own. -/
def Written.storePairs (b : Builder) (path : List String) (acc : Fields) :
    List (List String × Written) → Option (Fields × Builder)
  | [] => some (acc, b)
  | (keys, w) :: rest =>
    let key := keys.getLastD ""
    match b.enterParents keys with
    | none => none
    | some b =>
      match Written.store b key false w with
      | none => none
      | some (v, b) =>
        match b.assign key v, Fields.putPath v keys acc with
        | some b, some acc =>
          let isList := match v with
            | .list _ => true
            | _ => false
          Written.storePairs { (b.note key isList) with context := path } path acc rest
        | _, _ => none

end

/-- The document after one more statement. -/
def Builder.take (b : Builder) : Statement → Option Builder
  | .table path => (b.enter path false).map (·.note "" false)
  | .element path => (b.enter path true).map (·.note "" false)
  | .pair keys w => do
    let key := keys.getLastD ""
    let inner ← b.enterParents keys
    let (v, inner) ← w.store inner key false
    let inner ← inner.assign key v
    let isList := match v with
      | .list _ => true
      | _ => false
    some { (inner.note key isList) with context := b.context }

/-- The table that a document holds, unless it is malformed. -/
def read (bytes : Bytes) : Option Fields := do
  let document ← statements bytes
  let b ← document.foldlM Builder.take {}
  some b.fields

end TapeCompiler.Toml
