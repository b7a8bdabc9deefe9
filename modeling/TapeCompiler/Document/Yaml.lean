import TapeCompiler.Document.Basic
import TapeCompiler.Text.Quoted

/-!
# Documents in YAML

Block style with two blanks of indentation per level. The items of a list stand
two columns to the right of the key they belong to. A string is written plain
where a YAML reader takes it for the same string:

  * it is double-quoted, with escapes, if it holds a character that is not
    printable in YAML;
  * it is double-quoted if it looks like a number written to base sixty, which
    `line:column` often does;
  * it is single-quoted if plain text would be taken for something else.
-/

namespace TapeCompiler.Document

/-- Characters that YAML counts as printable inside a line. -/
def isYamlPrintable (c : Char) : Bool :=
  (' ' ≤ c && c ≤ '~') ||
    ('\u00a0' ≤ c && c.toNat ≤ 0xFFFD && c != '\ufeff' && c != '\u2028' && c != '\u2029')

/-- An upper-case hexadecimal number of fixed width. -/
def upperHex (width n : Nat) : List Char :=
  (Quoted.hex width n).map Char.toUpper

/-- A character inside a double-quoted YAML string. -/
def yamlChar (c : Char) : List Char :=
  if c = '"' || c = '\\' then ['\\', c]
  else if isYamlPrintable c then [c]
  else if c = '\x00' then ['\\', '0']
  else if c = '\x07' then ['\\', 'a']
  else if c = '\x08' then ['\\', 'b']
  else if c = '\t' then ['\\', 't']
  else if c = '\n' then ['\\', 'n']
  else if c = '\x0b' then ['\\', 'v']
  else if c = '\x0c' then ['\\', 'f']
  else if c = '\r' then ['\\', 'r']
  else if c = '\x1b' then ['\\', 'e']
  else if c = '\u0085' then ['\\', 'N']
  else if c = '\u2028' then ['\\', 'L']
  else if c = '\u2029' then ['\\', 'P']
  else if c.toNat ≤ 0xFF then '\\' :: 'x' :: upperHex 2 c.toNat
  else if c.toNat ≤ 0xFFFF then '\\' :: 'u' :: upperHex 4 c.toNat
  else '\\' :: 'U' :: upperHex 8 c.toNat

/-- Whether a list of characters is one or two digits, below sixty. -/
def isSexagesimalDigit (cs : List Char) : Bool :=
  match cs with
  | [a] => a.isDigit
  | [a, b] => '0' ≤ a && a ≤ '5' && b.isDigit
  | _ => false

/-- Cut a list of characters at every colon. -/
def splitColons (cs : List Char) : List (List Char) :=
  cs.splitOn ':'

/-- Whether the last part of a base-sixty number is well formed: a digit, and a
    fraction if there is a point. -/
def isSexagesimalEnd (cs : List Char) : Bool :=
  isSexagesimalDigit (cs.takeWhile (· != '.')) &&
    match cs.dropWhile (· != '.') with
    | [] => true
    | _ :: fraction => fraction.all fun c => c.isDigit || c = '_'

/-- Whether a string looks like a number written to base sixty. -/
def isSexagesimal (cs : List Char) : Bool :=
  let unsigned := match cs with
    | '-' :: cs | '+' :: cs => cs
    | cs => cs
  match splitColons unsigned with
  | head :: part :: parts =>
    (match head with
      | d :: ds => d.isDigit && ds.all fun c => c.isDigit || c = '_'
      | [] => false) &&
    ((part :: parts).dropLast.all isSexagesimalDigit) &&
    isSexagesimalEnd ((part :: parts).getLastD [])
  | _ => false

/-- Whether a list of characters holds `a` directly followed by `b`. -/
def hasPair (a b : Char) : List Char → Bool
  | [] => false
  | c :: cs => (c = a && cs.head? = some b) || hasPair a b cs

/-- Whether plain text would not be read back as the string. -/
def needsQuotes (cs : List Char) : Bool :=
  match cs with
  | [] => true
  | c :: rest =>
    c ∈ ['#', ',', '[', ']', '\x7b', '\x7d', '&', '*', '!', '|', '>', '\'', '"', '%', '@', '\x60'] ||
    (c ∈ ['?', ':', '-'] && (rest.isEmpty || rest.head? = some ' ')) ||
    ['-', '-', '-'].isPrefixOf cs || ['.', '.', '.'].isPrefixOf cs ||
    hasPair ':' ' ' cs || cs.getLast? = some ':' || hasPair ' ' '#' cs ||
    c = ' ' || cs.getLast? = some ' '

/-- A string in YAML. -/
def yamlString (s : String) : String :=
  let cs := s.toList
  if cs.any (fun c => !isYamlPrintable c) || isSexagesimal cs then
    String.ofList ('"' :: cs.flatMap yamlChar ++ ['"'])
  else if needsQuotes cs then
    String.ofList ('\'' :: cs.flatMap (fun c => if c = '\'' then ['\'', '\''] else [c]) ++ ['\''])
  else s

/-- The indentation of a column. -/
def blanks (col : Nat) : String :=
  String.ofList (List.replicate col ' ')

mutual

/-- The pieces of a document that starts at column `col`, last first, in front of
    `acc`. The first line is already indented. -/
def yamlOnto (col : Nat) (acc : List String) : Document → List String
  | null => "null\n" :: acc
  | int n => "\n" :: toString n :: acc
  | text s => "\n" :: yamlString s :: acc
  | list [] => "[]\n" :: acc
  | list (d :: ds) => yamlItemsOnto col (yamlOnto (col + 2) ("- " :: acc) d) ds
  | fields [] => "\x7b\x7d\n" :: acc
  | fields ((key, d) :: es) =>
    yamlFieldsOnto col (yamlValueOnto col (":" :: yamlString key :: acc) d) es

/-- The pieces of a field's value, after the key and its colon. -/
def yamlValueOnto (col : Nat) (acc : List String) : Document → List String
  | null => " null\n" :: acc
  | int n => "\n" :: toString n :: " " :: acc
  | text s => "\n" :: yamlString s :: " " :: acc
  | list [] => " []\n" :: acc
  | list (d :: ds) =>
    yamlItemsOnto (col + 2) (yamlOnto (col + 4) ("- " :: blanks (col + 2) :: "\n" :: acc) d) ds
  | fields [] => " \x7b\x7d\n" :: acc
  | fields ((key, d) :: es) =>
    yamlFieldsOnto (col + 2)
      (yamlValueOnto (col + 2) (":" :: yamlString key :: blanks (col + 2) :: "\n" :: acc) d) es

/-- The pieces of the further items of a list at column `col`. -/
def yamlItemsOnto (col : Nat) (acc : List String) : List Document → List String
  | [] => acc
  | d :: ds => yamlItemsOnto col (yamlOnto (col + 2) ("- " :: blanks col :: acc) d) ds

/-- The pieces of the further fields at column `col`. -/
def yamlFieldsOnto (col : Nat) (acc : List String) : List (String × Document) → List String
  | [] => acc
  | (key, d) :: es =>
    yamlFieldsOnto col (yamlValueOnto col (":" :: yamlString key :: blanks col :: acc) d) es

end

/-- A document in YAML. -/
def yaml (d : Document) : String :=
  String.join (yamlOnto 0 [] d).reverse

end TapeCompiler.Document
