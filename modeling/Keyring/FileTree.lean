import Keyring.Bytes
import Keyring.SortedMap
/-!
# File trees

Directories and files by their paths. A path leads through directories only, and a name may not be
longer than a file system admits or hold a zero byte. A write replaces the content of a file as a
whole, and a renamed file takes the place of the one that was there in one step.

Paths are followed as they are written: `..` leads back from a directory that is there, so a path
with it may fail although the place that it means can be reached in another way.
-/
namespace Keyring

/-- The names of a path in the order in which they are followed. -/
abbrev FilePath := List String

namespace FilePath

/-- The path that a text with slashes writes. -/
def ofText (text : String) : FilePath :=
  ((text.toList.splitOn '/').map String.ofList).filter fun name => name ≠ ""

def nameLimit : Nat := 255

def pathLimit : Nat := 4095

/-- The bytes of a path, with a slash before each name. -/
def byteSize (path : FilePath) : Nat := path.foldl (fun n name => n + 1 + name.utf8ByteSize) 0

/-- Whether a file system could be asked for the path at all. -/
def isAdmitted (path : FilePath) : Bool :=
  path.byteSize ≤ pathLimit && path.all fun name => !name.toList.contains '\x00'

/-- The paths above a path, the nearest first. A name that stays in its directory is none. -/
def above (path : FilePath) : List FilePath :=
  let names := path.filter fun name => name ≠ "."
  (List.range names.length).reverse.map names.take

end FilePath

/-- What a path leads to. -/
inductive FileNode
  | file (content : Bytes)
  | directory
  deriving DecidableEq, Repr

/-- Why a file could not be used. -/
inductive FileFault
  /-- There is nothing at the path, or the way there is missing. -/
  | missing
  /-- There is something at the path, or on the way, that does not admit the operation. -/
  | refused
  deriving DecidableEq, Repr

/-- Directories and files by their places: the names that lead there from the root, with none that
stays or leads back. -/
structure FileTree where
  nodes : SortedMap FilePath FileNode
  /-- Grows with every change. -/
  revision : Nat

namespace FileTree

def empty : FileTree := ⟨SortedMap.empty.insert [] .directory, 0⟩

/-- Follows names from a place, through directories that are there. There may be nothing at the
place where the last name leads. -/
def walk (t : FileTree) (place : FilePath) : FilePath → Except FileFault FilePath
  | [] => .ok place
  | name :: rest =>
    match t.nodes.get? place with
    | none => .error .missing
    | some (.file _) => .error .refused
    | some .directory =>
      if name = "." then t.walk place rest
      else if name = ".." then t.walk place.dropLast rest
      else if FilePath.nameLimit < name.utf8ByteSize then .error .refused
      else t.walk (place ++ [name]) rest

/-- The place to which a path leads from the root. -/
def locate (t : FileTree) (path : FilePath) : Except FileFault FilePath :=
  if path.isAdmitted then t.walk [] path else .error .refused

/-- What is at a place. -/
def at? (t : FileTree) (place : FilePath) : Option FileNode := t.nodes.get? place

def isDirectory (t : FileTree) (path : FilePath) : Bool :=
  match t.locate path with
  | .ok place => t.at? place == some .directory
  | .error _ => false

def read (t : FileTree) (path : FilePath) : Except FileFault Bytes :=
  match t.locate path with
  | .error fault => .error fault
  | .ok place =>
    match t.at? place with
    | some (.file content) => .ok content
    | some .directory => .error .refused
    | none => .error .missing

def put (t : FileTree) (place : FilePath) (node : FileNode) : FileTree :=
  ⟨t.nodes.insert place node, t.revision + 1⟩

/-- Writes a file, in place of what it contained. -/
def write (t : FileTree) (path : FilePath) (content : Bytes) : Except FileFault FileTree :=
  match t.locate path with
  | .error fault => .error fault
  | .ok place =>
    match t.at? place with
    | some .directory => .error .refused
    | _ => .ok (t.put place (.file content))

def remove (t : FileTree) (path : FilePath) : Except FileFault FileTree :=
  match t.locate path with
  | .error fault => .error fault
  | .ok place =>
    match t.at? place with
    | some (.file _) => .ok ⟨t.nodes.erase place, t.revision + 1⟩
    | some .directory => .error .refused
    | none => .error .missing

/-- Moves a file over another. -/
def rename (t : FileTree) (source target : FilePath) : Except FileFault FileTree :=
  match t.read source with
  | .ok content => (t.write target content).bind fun t => t.remove source
  | .error fault => .error fault

/-! ## Directories -/

/-- What comes of making a directory. -/
inductive Making
  | made (tree : FileTree)
  /-- There is something already. -/
  | present
  /-- The way there is missing. -/
  | unreachable
  | refused

/-- Makes a directory in another that is there. -/
def makeDirectory (t : FileTree) (path : FilePath) : Making :=
  match t.locate path with
  | .error .missing => .unreachable
  | .error .refused => .refused
  | .ok place =>
    match t.at? place with
    | some _ => .present
    | none => .made (t.put place .directory)

/-- Tries paths up to the first that leads to a directory, made or found, and gives those before it,
the last of them first. -/
def climb (t : FileTree) (unreached : List FilePath) :
    List FilePath → FileTree × Option (List FilePath)
  | [] => (t, some unreached)
  | path :: rest =>
    match t.makeDirectory path with
    | .made t => (t, some unreached)
    | .present => (t, if t.isDirectory path then some unreached else none)
    | .unreachable => t.climb (path :: unreached) rest
    | .refused => (t, none)

/-- Makes one directory after the other, except for those that are there, and tells whether all
could be made. -/
def descend (t : FileTree) : List FilePath → FileTree × Bool
  | [] => (t, true)
  | path :: rest =>
    match t.makeDirectory path with
    | .made t => t.descend rest
    | .present => if t.isDirectory path then t.descend rest else (t, false)
    | .unreachable | .refused => (t, false)

/-- Makes the directory of a path and those above it that are missing, and tells whether all could
be made. The first that can be made at all is looked for from below. -/
def createDirectories (t : FileTree) (path : FilePath) : FileTree × Bool :=
  match t.climb [] (path :: path.above) with
  | (t, some unreached) => t.descend unreached
  | (t, none) => (t, false)

/-- The names in a directory, in ascending order. -/
def names (t : FileTree) (directory : FilePath) : List String :=
  match t.locate directory with
  | .error _ => []
  | .ok place => t.nodes.keys.filterMap fun other =>
      if other ≠ [] ∧ other.dropLast = place then other.getLast? else none

/-! ## Where paths lead -/

/-- Names are followed one part after the other. -/
theorem walk_append (t : FileTree) (place first second : FilePath) :
    t.walk place (first ++ second) = (t.walk place first).bind fun p => t.walk p second := by
  fun_induction walk t place first with
  | case1 => rfl
  | case2 place name rest h => simp [walk, h, Except.bind]
  | case3 place name rest content h => simp [walk, h, Except.bind]
  | case4 place rest h ih => simp [walk, h, ih]
  | case5 place rest h _ ih => simp [walk, h, ih]
  | case6 place name rest h stays back long => simp [walk, h, stays, back, long, Except.bind]
  | case7 place name rest h stays back short ih => simp [walk, h, stays, back, short, ih]

/-- A plain name leads from a directory to the place of that name in it. -/
theorem walk_child (t : FileTree) {place path : FilePath} {directory : FilePath} {name : String}
    (reached : t.walk place path = .ok directory) (h : t.at? directory = some .directory)
    (stays : name ≠ ".") (back : name ≠ "..") (short : name.utf8ByteSize ≤ FilePath.nameLimit) :
    t.walk place (path ++ [name]) = .ok (directory ++ [name]) := by
  unfold at? at h
  simp [walk_append, reached, Except.bind, walk, h, stays, back, Nat.not_lt.2 short]

@[simp] theorem at?_put_self (t : FileTree) (path : FilePath) (node : FileNode) :
    (t.put path node).at? path = some node :=
  SortedMap.get?_insert_self t.nodes path node

/-- One step of a write to files. -/
inductive Step
  | write (path : FilePath) (content : Bytes)
  | rename (source target : FilePath)
  deriving DecidableEq, Repr

def step (t : FileTree) : Step → Except FileFault FileTree
  | .write path content => t.write path content
  | .rename source target => t.rename source target

/-- Takes steps until one fails, and tells whether all succeeded. -/
def run (t : FileTree) : List Step → FileTree × Bool
  | [] => (t, true)
  | s :: rest =>
    match t.step s with
    | .ok t => t.run rest
    | .error _ => (t, false)

end FileTree
end Keyring
