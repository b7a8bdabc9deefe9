import TapeCompiler.Yaml.Token

/-!
# Nodes of YAML

The tokens of a document form one node: a scalar, a sequence or a mapping. A node
can have a tag, which says what it is to be read as, and an anchor, by which an alias
further on refers to it. Only the first document of a text is read, but two tokens
beyond its end must still be sound.

A number bounds how deep the readers call each other; it is computed from the number
of tokens.
-/

namespace TapeCompiler.Yaml

/-- A node of a document. Tags are in their short form; a node without one has
    `none`. -/
inductive Node where
  | scalar (tag? : Option String) (text : String) (plain : Bool)
  | sequence (tag? : Option String) (items : List Node)
  | mapping (tag? : Option String) (pairs : List (Node × Node))
  | alias (name : String) (target : Node)
  /-- An alias of a node that contains it. -/
  | cycle (name : String)
  deriving Repr

/-- The node where nothing is written. -/
def Node.nothing (tag? : Option String := none) : Node := .scalar tag? "" true

/-- A node that an alias can refer to. It is absent while it is being read. -/
structure Anchored where
  name : String
  node? : Option Node
  deriving Repr

/-- The tokens left, and the anchors so far, the latest first. -/
structure Reading where
  tokens : List Token
  anchors : List Anchored := []
  deriving Repr

namespace Reading

/-- The next token. -/
def peek? (r : Reading) : Option Token := r.tokens.head?

/-- Without the next token. -/
def skip (r : Reading) : Reading := { r with tokens := r.tokens.drop 1 }

/-- Whether the next token is one of these. There is always a next one, unless the text
    has an error. -/
def isAt (r : Reading) (ts : List Token) : Bool := r.peek?.any ts.contains

/-- Announces an anchor. -/
def announce (r : Reading) : Option String → Reading
  | none => r
  | some name => { r with anchors := ⟨name, none⟩ :: r.anchors }

/-- Completes an anchor that was announced when there were `n` others. -/
def complete (r : Reading) (anchor? : Option String) (n : Nat) (node : Node) : Reading :=
  match anchor? with
  | none => r
  | some name =>
    let later := r.anchors.length - n - 1
    { r with anchors := r.anchors.take later ++ ⟨name, some node⟩ :: r.anchors.drop (later + 1) }

/-- The node of an alias. -/
def resolve (r : Reading) (name : String) : Option Node :=
  match r.anchors.find? (·.name == name) with
  | some ⟨_, some node⟩ => some (.alias name node)
  | some ⟨_, none⟩ => some (.cycle name)
  | none => none

end Reading

/-- What stands before the content of a node. -/
structure Properties where
  anchor? : Option String := none
  tag? : Option (String × String) := none
  deriving Repr

/-- Reads an anchor and a tag, in either order. -/
def properties (r : Reading) : Properties × Reading :=
  match r.tokens with
  | .anchor a :: .tag h s :: rest => (⟨some a, some (h, s)⟩, { r with tokens := rest })
  | .tag h s :: .anchor a :: rest => (⟨some a, some (h, s)⟩, { r with tokens := rest })
  | .anchor a :: rest => (⟨some a, none⟩, { r with tokens := rest })
  | .tag h s :: rest => (⟨none, some (h, s)⟩, { r with tokens := rest })
  | _ => ({}, r)

/-- What the handles of tags stand for. -/
abbrev Handles := List (String × String)

/-- The handles that every document knows. -/
def Handles.default : Handles := [("!", "!"), ("!!", "tag:yaml.org,2002:")]

/-- The short form of a tag. -/
def shortTag (tag : String) : String :=
  let long := "tag:yaml.org,2002:".toList
  if long.isPrefixOf tag.toList then
    String.ofList ('!' :: '!' :: tag.toList.drop long.length)
  else tag

/-- The tag that a handle and a suffix make, in its short form. The tag `!` is as good as
    none. A handle must be known. -/
def expandTag (handles : Handles) : Option (String × String) → Option (Option String)
  | none => some none
  | some (handle, suffix) =>
    let full? :=
      if handle = "" then some suffix else (handles.lookup handle).map (· ++ suffix)
    match full? with
    | none => none
    | some "" => none
    | some "!" => some none
    | some tag => some (some (shortTag tag))

mutual

/-- A node. In a block it can be a block collection, and after a key also a sequence at
    the indentation of the key. -/
def node (handles : Handles) : Nat → Bool → Bool → Reading → Option (Node × Reading)
  | 0, _, _, _ => none
  | n + 1, inBlock, atKey, r =>
    match r.tokens with
    | .alias name :: _ => (r.resolve name).map fun a => (a, r.skip)
    | _ =>
      let (props, r) := properties r
      match expandTag handles props.tag? with
      | none => none
      | some tag? =>
        let before := r.anchors.length
        let r := r.announce props.anchor?
        let result : Option (Node × Reading) :=
          match r.peek? with
          | some (.scalar text plain) => some (.scalar tag? text plain, r.skip)
          | some .flowSequenceStart => flowSequence handles n tag? [] true r.skip
          | some .flowMappingStart => flowMapping handles n tag? [] true r.skip
          | some .blockEntry => if atKey then flatSequence handles n tag? [] r else none
          | some .blockSequenceStart =>
            if inBlock then blockSequence handles n tag? [] r.skip else none
          | some .blockMappingStart =>
            if inBlock then blockMapping handles n tag? [] r.skip else none
          | _ => none
        match result, props.anchor?, props.tag? with
        | some (made, r), _, _ => some (made, r.complete props.anchor? before made)
        | none, none, none => none
        | none, _, _ =>
          -- Nothing but an anchor or a tag: the content is empty, unless it is wrong.
          if r.isAt [.flowSequenceStart, .flowMappingStart] ||
              (atKey && r.isAt [.blockEntry]) ||
              (inBlock && r.isAt [.blockSequenceStart, .blockMappingStart]) then none
          else
            let made := Node.nothing tag?
            some (made, r.complete props.anchor? before made)

/-- The entries of a block sequence. -/
def blockSequence (handles : Handles) :
    Nat → Option String → List Node → Reading → Option (Node × Reading)
  | 0, _, _, _ => none
  | n + 1, tag?, acc, r =>
    match r.peek? with
    | some .blockEnd => some (.sequence tag? acc.reverse, r.skip)
    | some .blockEntry =>
      let r := r.skip
      if r.isAt [.blockEntry, .blockEnd] then blockSequence handles n tag? (.nothing :: acc) r
      else
        match node handles n true false r with
        | none => none
        | some (item, r) => blockSequence handles n tag? (item :: acc) r
    | _ => none

/-- The entries of a sequence at the indentation of a key. No token ends it. -/
def flatSequence (handles : Handles) :
    Nat → Option String → List Node → Reading → Option (Node × Reading)
  | 0, _, _, _ => none
  | n + 1, tag?, acc, r =>
    match r.peek? with
    | some .blockEntry =>
      let r := r.skip
      if r.isAt [.blockEntry, .key, .value, .blockEnd] then
        flatSequence handles n tag? (.nothing :: acc) r
      else
        match node handles n true false r with
        | none => none
        | some (item, r) => flatSequence handles n tag? (item :: acc) r
    | some _ => some (.sequence tag? acc.reverse, r)
    | none => none

/-- The pairs of a block mapping. -/
def blockMapping (handles : Handles) :
    Nat → Option String → List (Node × Node) → Reading → Option (Node × Reading)
  | 0, _, _, _ => none
  | n + 1, tag?, acc, r =>
    match r.peek? with
    | some .blockEnd => some (.mapping tag? acc.reverse, r.skip)
    | some .key =>
      let r := r.skip
      let key? :=
        if r.isAt [.key, .value, .blockEnd] then some (.nothing, r)
        else node handles n true true r
      match key? with
      | none => none
      | some (key, r) =>
        match blockValue handles n r with
        | none => none
        | some (v, r) => blockMapping handles n tag? ((key, v) :: acc) r
    | _ => none

/-- The value of a key in a block mapping. -/
def blockValue (handles : Handles) : Nat → Reading → Option (Node × Reading)
  | 0, _ => none
  | n + 1, r =>
    if r.isAt [.value] then
      let r := r.skip
      if r.isAt [.key, .value, .blockEnd] then some (.nothing, r)
      else node handles n true true r
    else some (.nothing, r)

/-- The entries of a flow sequence. A pair among them is a mapping of its own. -/
def flowSequence (handles : Handles) :
    Nat → Option String → List Node → Bool → Reading → Option (Node × Reading)
  | 0, _, _, _, _ => none
  | n + 1, tag?, acc, first, r =>
    if r.isAt [.flowSequenceEnd] then some (.sequence tag? acc.reverse, r.skip)
    else if !first && !r.isAt [.flowEntry] then none
    else
      let r := if first then r else r.skip
      if r.isAt [.flowSequenceEnd] then some (.sequence tag? acc.reverse, r.skip)
      else if r.isAt [.key] then
        match flowPair handles n r.skip with
        | none => none
        | some (pair, r) => flowSequence handles n tag? (.mapping none [pair] :: acc) false r
      else
        match node handles n false false r with
        | none => none
        | some (item, r) => flowSequence handles n tag? (item :: acc) false r

/-- A key and its value among the entries of a flow sequence. -/
def flowPair (handles : Handles) : Nat → Reading → Option ((Node × Node) × Reading)
  | 0, _ => none
  | n + 1, r =>
    let key? :=
      if r.isAt [.value, .flowEntry, .flowSequenceEnd] then some (.nothing, r.skip)
      else node handles n false false r
    match key? with
    | none => none
    | some (key, r) =>
      match flowValue handles n [.flowEntry, .flowSequenceEnd] r with
      | none => none
      | some (v, r) => some ((key, v), r)

/-- The value of a key in a flow collection; `stops` are the tokens that leave it
    empty. -/
def flowValue (handles : Handles) : Nat → List Token → Reading → Option (Node × Reading)
  | 0, _, _ => none
  | n + 1, stops, r =>
    if r.isAt [.value] then
      if r.skip.isAt stops then some (.nothing, r.skip) else node handles n false false r.skip
    else some (.nothing, r)

/-- The pairs of a flow mapping. An entry without a colon is a key without a value. -/
def flowMapping (handles : Handles) :
    Nat → Option String → List (Node × Node) → Bool → Reading → Option (Node × Reading)
  | 0, _, _, _, _ => none
  | n + 1, tag?, acc, first, r =>
    if r.isAt [.flowMappingEnd] then some (.mapping tag? acc.reverse, r.skip)
    else if !first && !r.isAt [.flowEntry] then none
    else
      let r := if first then r else r.skip
      if r.isAt [.flowMappingEnd] then some (.mapping tag? acc.reverse, r.skip)
      else if r.isAt [.key] then
        let r := r.skip
        let key? :=
          if r.isAt [.value, .flowEntry, .flowMappingEnd] then some (.nothing, r)
          else node handles n false false r
        match key? with
        | none => none
        | some (key, r) =>
          match flowValue handles n [.flowEntry, .flowMappingEnd] r with
          | none => none
          | some (v, r) => flowMapping handles n tag? ((key, v) :: acc) false r
      else
        match node handles n false false r with
        | none => none
        | some (key, r) => flowMapping handles n tag? ((key, .nothing) :: acc) false r

end

/-- The directives in front of a document: the handles they define, if they are
    sound. -/
def directives (handles : Handles) (versioned : Bool) :
    List Token → Option (Handles × List Token)
  | .version major minor :: rest =>
    if versioned || major != 1 || minor != 1 then none else directives handles true rest
  | .tagHandle handle uri :: rest =>
    if handles.any (·.1 == handle) then none
    else directives (handles ++ [(handle, uri)]) versioned rest
  | rest => some (handles, rest)

/-- The handles of a document: its own before those that every document knows. -/
def withDefaults (own : Handles) : Handles :=
  own ++ Handles.default.filter fun (h, _) => !own.any (·.1 == h)

/-- The root of the first document of a text, unless the text is malformed. A text
    without any document has no root. -/
def document (text : List Char) : Option (Option Node) := do
  let (tokens, sound) := scan text
  let fuel := 4 * tokens.length + 8
  let finish := fun (root : Node) (r : Reading) =>
    if r.tokens.isEmpty || (!sound && r.tokens.length < 3) then none
    else some (some root)
  match tokens with
  | [.streamEnd] => some none
  | _ =>
    let (own, rest) ← directives [] false tokens
    let explicit := rest.head? = some .documentStart
    if rest.length != tokens.length && !explicit then none
    let r : Reading := { tokens := if explicit then rest.drop 1 else rest }
    if explicit && r.isAt [.documentStart, .documentEnd, .streamEnd] then finish .nothing r
    else
      let (root, r) ← node (withDefaults own) fuel true false r
      finish root r

end TapeCompiler.Yaml
