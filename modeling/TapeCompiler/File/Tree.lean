import TapeCompiler.File.Error
import TapeCompiler.File.Path

/-!
# A model of files

Files and directories hang in a tree below one root. Here the tree is a list of the
places that are taken, each given by the names that lead to it, so that two trees can
be compared place by place. A path is followed from the working directory, name by
name, the way a system does it: whatever stands before a slash must be a directory.
-/

namespace TapeCompiler

/-- What a place of the tree holds. -/
inductive FileEntry where
  | directory
  | file (content : Bytes) (executable : Bool)
  deriving DecidableEq, Repr

namespace FileEntry

/-- The kind of an entry. -/
def kind : FileEntry → FileKind
  | directory => .directory
  | file _ executable => .file executable

/-- Whether the entry is a directory. -/
def isDirectory : FileEntry → Bool
  | directory => true
  | file _ _ => false

end FileEntry

/-- A place in the tree: the names from the root on. -/
abbrev Place := List Bytes

/-- A tree of files. The root is always there and not listed. -/
structure FileTree where
  entries : List (Place × FileEntry) := []
  deriving DecidableEq, Repr

namespace FileTree

/-- What a place holds. -/
def get? (t : FileTree) (place : Place) : Option FileEntry :=
  if place.isEmpty then some .directory else t.entries.lookup place

/-- Puts an entry at a place. -/
def put (t : FileTree) (place : Place) (e : FileEntry) : FileTree :=
  ⟨(place, e) :: t.entries.filter (·.1 != place)⟩

/-- Empties a place. -/
def erase (t : FileTree) (place : Place) : FileTree :=
  ⟨t.entries.filter (·.1 != place)⟩

/-- Whether something stands below a place. -/
def hasChild (t : FileTree) (place : Place) : Bool :=
  t.entries.any fun (p, _) => p.dropLast == place && !p.isEmpty

/-- Makes a directory together with those above it. Nothing happens where a file is in
    the way. -/
def makeDirectories (t : FileTree) (done : Place) : Place → FileTree
  | [] => t
  | name :: rest =>
    let place := done ++ [name]
    match t.get? place with
    | some .directory => t.makeDirectories place rest
    | some (.file _ _) => t
    | none => (t.put place .directory).makeDirectories place rest

/-- The place one name further: `..` leads up, and at the root nowhere. -/
def descend (place : Place) (name : Bytes) : Place :=
  if name = [Path.dot] then place
  else if name = [Path.dot, Path.dot] then place.dropLast
  else place ++ [name]

/-- Follows names through directories that must be there. -/
def follow (t : FileTree) (place : Place) : List Bytes → Except Refusal Place
  | [] => .ok place
  | name :: rest =>
    match t.get? (descend place name) with
    | some .directory => t.follow (descend place name) rest
    | some (.file _ _) => .error .notDirectory
    | none => .error .noSuchFile

/-- The last step of a path: the directory it is taken from, the name, and whether a
    slash after the name asks for a directory. -/
structure LastStep where
  parent : Place
  name : Bytes
  slash : Bool
  deriving DecidableEq, Repr

/-- Follows a path up to its last name. -/
def lastStep (t : FileTree) (cwd : Place) (path : Bytes) : Except Refusal LastStep :=
  let parts := Path.elements path
  let names := parts.filter (· != [])
  let start := if Path.isRooted path then [] else cwd
  if path.isEmpty then
    .error .noSuchFile
  else
    match t.follow start names.dropLast with
    | .error e => .error e
    | .ok parent => .ok ⟨parent, names.getLastD [Path.dot], parts.getLastD [] = [] && !names.isEmpty⟩

/-- The place of a path and what it holds. -/
def find (t : FileTree) (cwd : Place) (path : Bytes) : Except Refusal (Place × FileEntry) :=
  match t.lastStep cwd path with
  | .error e => .error e
  | .ok s =>
    let place := descend s.parent s.name
    match t.get? place with
    | none => .error .noSuchFile
    | some e => if s.slash && !e.isDirectory then .error .notDirectory else .ok (place, e)

/-- What stands at a path. -/
def stat (t : FileTree) (cwd : Place) (path : Bytes) : Except Refusal FileKind :=
  (t.find cwd path).map fun (_, e) => e.kind

/-- The content of the file at a path. A directory can be opened but not read. -/
def readFile (t : FileTree) (cwd : Place) (path : Bytes) : Except FileError Bytes :=
  match t.find cwd path with
  | .error e => .error ⟨.open, path, e⟩
  | .ok (_, .directory) => .error ⟨.read, path, .isDirectory⟩
  | .ok (_, .file content _) => .ok content

/-- The tree after writing a file. An older file keeps its permissions. -/
def writeFile (t : FileTree) (cwd : Place) (path : Bytes) (content : Bytes) :
    Except FileError FileTree :=
  match t.lastStep cwd path with
  | .error e => .error ⟨.open, path, e⟩
  | .ok s =>
    let place := descend s.parent s.name
    if s.slash then .error ⟨.open, path, .isDirectory⟩
    else
      match t.get? place with
      | some .directory => .error ⟨.open, path, .isDirectory⟩
      | some (.file _ executable) => .ok (t.put place (.file content executable))
      | none => .ok (t.put place (.file content false))

/-- The tree after removing a file or an empty directory. -/
def remove (t : FileTree) (cwd : Place) (path : Bytes) : Except FileError FileTree :=
  match t.find cwd path with
  | .error e => .error ⟨.remove, path, e⟩
  | .ok (place, .directory) =>
    if t.hasChild place then .error ⟨.remove, path, .notEmpty⟩ else .ok (t.erase place)
  | .ok (place, .file _ _) => .ok (t.erase place)

end FileTree

end TapeCompiler
