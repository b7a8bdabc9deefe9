import TapeCompiler.Text.Bytes

/-!
# Paths

A path is a byte string cut into elements by slashes. These operations are on the bytes
alone and never look at a file:

  * `ext` and `stem` cut a path at the last dot of its last element;
  * `base` and `dir` are the last element and what stands before it;
  * `clean` is the shortest path that names the same place: no empty element, no
    `.`, and no `..` after another element;
  * `join` puts paths one after the other and cleans the result.
-/

namespace TapeCompiler.Path

/-- The byte between elements. -/
def slash : UInt8 := 0x2F

/-- The byte before an extension. -/
def dot : UInt8 := 0x2E

/-- The last element: the bytes after the last slash. -/
def lastElement (path : Bytes) : Bytes :=
  (path.reverse.takeWhile (· != slash)).reverse

/-- The bytes up to and including the last slash. -/
def parentPart (path : Bytes) : Bytes :=
  (path.reverse.dropWhile (· != slash)).reverse

/-- The extension of a path: from the last dot of its last element on. It is empty if
    there is no such dot. -/
def ext (path : Bytes) : Bytes :=
  let element := lastElement path
  if element.contains dot then
    dot :: (element.reverse.takeWhile (· != dot)).reverse
  else
    []

/-- The path without its extension. -/
def stem (path : Bytes) : Bytes :=
  path.take (path.length - (ext path).length)

/-- The last element of a path, trailing slashes left aside. An empty path has the
    last element `.`, and a path of slashes the last element `/`. -/
def base (path : Bytes) : Bytes :=
  if path.isEmpty then
    [dot]
  else
    let trimmed := (path.reverse.dropWhile (· == slash)).reverse
    if trimmed.isEmpty then [slash] else lastElement trimmed

/-- The elements of a path, empty ones included. -/
def elements (path : Bytes) : List Bytes :=
  path.splitOn slash

/-- Takes one element onto the cleaned elements before it, which stand last first.
    A `..` takes back the element before it; with none to take back it stays in a
    relative path and is dropped in a rooted one. -/
def cleanStep (rooted : Bool) (kept : List Bytes) (element : Bytes) : List Bytes :=
  if element = [] || element = [dot] then
    kept
  else if element = [dot, dot] then
    match kept with
    | [] => if rooted then [] else [[dot, dot]]
    | top :: rest => if top = [dot, dot] then [dot, dot] :: kept else rest
  else
    element :: kept

/-- Whether a path starts at the root. -/
def isRooted (path : Bytes) : Bool :=
  path.head? == some slash

/-- The cleaned elements of a path, in order. -/
def cleanElements (path : Bytes) : List Bytes :=
  ((elements path).foldl (cleanStep (isRooted path)) []).reverse

/-- The shortest path that names the same place. -/
def clean (path : Bytes) : Bytes :=
  let body := [slash].intercalate (cleanElements path)
  if isRooted path then slash :: body else if body.isEmpty then [dot] else body

/-- What stands before the last element, cleaned. -/
def dir (path : Bytes) : Bytes :=
  clean (parentPart path)

/-- The non-empty paths put one after the other and cleaned. Without any, the empty
    path. -/
def join (paths : List Bytes) : Bytes :=
  match paths.filter (· != []) with
  | [] => []
  | rest => clean ([slash].intercalate rest)

end TapeCompiler.Path
