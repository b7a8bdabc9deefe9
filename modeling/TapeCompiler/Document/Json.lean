import TapeCompiler.Document.Basic
import TapeCompiler.Text.Quoted

/-!
# Documents in JSON

Two blanks of indentation per level, one item or field per line, `[]` and `{}` for
what is empty, and a line feed at the end. In strings the characters `<`, `>`, `&`,
U+2028 and U+2029 are escaped too, so that the text may stand inside a web page.

The text is scanned once more when it is laid out, and that scan gives up where brackets
are nested too deeply (`Document.overflow?`). Then there is no text at all.
-/

namespace TapeCompiler.Document

/-- A character inside a JSON string. -/
def jsonChar (c : Char) : List Char :=
  if c = '"' || c = '\\' then ['\\', c]
  else if c = '\x08' then ['\\', 'b']
  else if c = '\x0c' then ['\\', 'f']
  else if c = '\n' then ['\\', 'n']
  else if c = '\r' then ['\\', 'r']
  else if c = '\t' then ['\\', 't']
  else if c.toNat < 0x20 || c = '<' || c = '>' || c = '&' || c = '\u2028' || c = '\u2029' then
    '\\' :: 'u' :: Quoted.hex 4 c.toNat
  else [c]

/-- A string in JSON. -/
def jsonString (s : String) : String :=
  String.ofList ('"' :: s.toList.flatMap jsonChar ++ ['"'])

/-- A line feed, and the indentation of a level. -/
def newline (depth : Nat) : String :=
  String.ofList ('\n' :: List.replicate (2 * depth) ' ')

mutual

/-- The pieces of a document's JSON, last first, in front of `acc`. -/
def jsonOnto (depth : Nat) (acc : List String) : Document → List String
  | null => "null" :: acc
  | int n => toString n :: acc
  | text s => jsonString s :: acc
  | list [] => "[]" :: acc
  | list (d :: ds) =>
    "]" :: newline depth ::
      jsonItemsOnto depth (jsonOnto (depth + 1) (newline (depth + 1) :: "[" :: acc) d) ds
  | fields [] => "\x7b\x7d" :: acc
  | fields ((key, d) :: es) =>
    "\x7d" :: newline depth ::
      jsonFieldsOnto depth
        (jsonOnto (depth + 1) (": " :: jsonString key :: newline (depth + 1) :: "\x7b" :: acc) d) es

/-- The pieces of the further items of a list. -/
def jsonItemsOnto (depth : Nat) (acc : List String) : List Document → List String
  | [] => acc
  | d :: ds => jsonItemsOnto depth (jsonOnto (depth + 1) (newline (depth + 1) :: "," :: acc) d) ds

/-- The pieces of the further fields. -/
def jsonFieldsOnto (depth : Nat) (acc : List String) : List (String × Document) → List String
  | [] => acc
  | (key, d) :: es =>
    jsonFieldsOnto depth
      (jsonOnto (depth + 1) (": " :: jsonString key :: newline (depth + 1) :: "," :: acc) d) es

end

/-- The text of a document. -/
def jsonText (d : Document) : String :=
  String.join ("\n" :: jsonOnto 0 [] d).reverse

/-! ## Nesting -/

/-- How deep the brackets of a text may be nested. -/
def maxNesting : Nat := 10000

mutual

/-- The first bracket of a document's text that is nested more than `room` deep. -/
def overflow? (room : Nat) : Document → Option Char
  | null | int _ | text _ => none
  | list items =>
    match room with
    | 0 => some '['
    | room + 1 => overflowItems? room items
  | fields entries =>
    match room with
    | 0 => some '\x7b'
    | room + 1 => overflowFields? room entries

/-- The first such bracket in the items of a list. -/
def overflowItems? (room : Nat) : List Document → Option Char
  | [] => none
  | d :: ds =>
    match overflow? room d with
    | some bracket => some bracket
    | none => overflowItems? room ds

/-- The first such bracket in the fields. -/
def overflowFields? (room : Nat) : List (String × Document) → Option Char
  | [] => none
  | (_, d) :: es =>
    match overflow? room d with
    | some bracket => some bracket
    | none => overflowFields? room es

end

/-- Why a document has no JSON. -/
inductive JsonError where
  /-- The bracket is nested too deeply. -/
  | tooDeep (bracket : Char)
  deriving DecidableEq, Repr

/-- The wording of the error. -/
def JsonError.message : JsonError → String
  | tooDeep bracket => s!"invalid character '{bracket}' exceeded max depth"

/-- A document in JSON, unless it is nested too deeply. -/
def json (d : Document) : Except JsonError String :=
  match d.overflow? maxNesting with
  | some bracket => .error (.tooDeep bracket)
  | none => .ok d.jsonText

end TapeCompiler.Document
