import TrapFacts.Failure
import TrapFacts.File.Node
import TrapFacts.File.Path

/-!
Trees of files and directories, and what the file operations do to them.
-/

namespace TrapFacts

/-- A tree, and the directory where relative paths start. -/
structure FileTree where
  root : FileNode := .directory []
  workingDirectory : Place := []

namespace FileTree

/-- What is at a place. -/
def at? (t : FileTree) (p : Place) : Option FileNode :=
  t.root.find? p.reverse

/-- Put something at a place in a directory, instead of what is there. -/
def put (t : FileTree) (p : Place) (node : FileNode) : FileTree :=
  { t with root := t.root.alter (fun _ => some node) p.reverse }

def erase (t : FileTree) (p : Place) : FileTree :=
  { t with root := t.root.alter (fun _ => none) p.reverse }

/-- The regular files, each with its place. -/
def files (t : FileTree) : List (Place × Content) :=
  t.root.files []

/-- How many bytes a name may have. -/
def longestName : Nat :=
  255

/-- Where a path leads, with the way that leads there. There need not be anything. -/
inductive Spot where
  | root (node : FileNode)
  | inside (parent : Spot) (name : String) (node? : Option FileNode)

namespace Spot

def node? : Spot → Option FileNode
  | root node => some node
  | inside _ _ node? => node?

def place : Spot → Place
  | root _ => []
  | inside parent name _ => name :: parent.place

/-- Above the root is the root. -/
def parent : Spot → Spot
  | root node => root node
  | inside parent _ _ => parent

/-- What is in the directory at a spot. -/
def entries (s : Spot) : Except IoError (List (String × FileNode)) :=
  match s.node? with
  | some (.directory entries) => .ok entries
  | some (.file _) => .error .notDirectory
  | none => .error .notFound

/-- The spot that a name means inside a directory. -/
def enter (s : Spot) (name : String) : Except IoError Spot :=
  match s.entries with
  | .error e => .error e
  | .ok entries =>
    if name = ".." then .ok s.parent
    else if longestName < name.utf8ByteSize then .error .nameTooLong
    else .ok (inside s name (entries.lookup name))

/-- The spot that names lead to. All that is passed is a directory. -/
def walk : Spot → List String → Except IoError Spot
  | s, [] => .ok s
  | s, name :: names =>
    match s.enter name with
    | .error e => .error e
    | .ok next => next.walk names

end Spot

/-- The spot of a place. -/
def spot (t : FileTree) : Place → Spot
  | [] => .root t.root
  | name :: p => .inside (t.spot p) name (t.at? (name :: p))

def start (t : FileTree) (path : Path) : Spot :=
  t.spot (if path.isAbsolute then [] else t.workingDirectory)

/-- The spot that a path leads to. -/
def resolve (t : FileTree) (path : Path) : Except IoError Spot :=
  if path.isTooLong then .error .nameTooLong
  else if path.isEmpty then .error .notFound
  else
    match (t.start path).walk path.names with
    | .error e => .error e
    | .ok s => if path.ending = .name then .ok s else s.entries.map fun _ => s

/-- What a path leads to. -/
def find (t : FileTree) (path : Path) : Except IoError FileNode :=
  match t.resolve path with
  | .error e => .error e
  | .ok s =>
    match s.node? with
    | some node => .ok node
    | none => .error .notFound

def contains (t : FileTree) (path : Path) : Bool :=
  (t.find path).isOk

def containsDirectory (t : FileTree) (path : Path) : Bool :=
  match t.find path with
  | .ok (.directory _) => true
  | _ => false

def readText (t : FileTree) (path : Path) : Except IoError String :=
  match t.find path with
  | .error e => .error e
  | .ok (.directory _) => .error .isDirectory
  | .ok (.file content) =>
    match content.text? with
    | some s => .ok s
    | none => .error .invalidText

/-- Make one directory. -/
def makeDirectory (t : FileTree) (path : Path) : Except IoError FileTree :=
  match t.resolve path with
  | .error e => .error e
  | .ok s =>
    if s.node?.isSome then .error .alreadyExists else .ok (t.put s.place (.directory []))

/-- Accept a directory that is there by now. -/
def orExisting (t : FileTree) (path : Path) : Except IoError FileTree → Option IoError × FileTree
  | .ok t => (none, t)
  | .error e => if t.containsDirectory path then (none, t) else (some e, t)

/-- Make the directory that the first `n` steps of a path lead to. If what it is made in is missing,
make that before. -/
def makeDirectories (t : FileTree) (path : Path) : (n : Nat) → Option IoError × FileTree
  | 0 => (none, t)
  | n + 1 =>
    let directory := path.take (n + 1)
    match t.makeDirectory directory with
    | .error .notFound =>
      match t.makeDirectories path n with
      | (some e, t) => (some e, t)
      | (none, t) => t.orExisting directory (t.makeDirectory directory)
    | r => t.orExisting directory r

/-- The names of temporary files. -/
def temporaryName (n : Nat) : String :=
  ".tmp" ++ toString n

/-- The first temporary name that is free. Of more names than there are entries, one is. -/
def freshName (entries : List (String × FileNode)) : String :=
  let free? := (List.range (entries.length + 1)).find? fun n =>
    (entries.lookup (temporaryName n)).isNone
  temporaryName (free?.getD 0)

/-- Make an empty file under a name of its own in a directory. -/
def createTemporary (t : FileTree) (directory : Path) : Except IoError (Place × FileTree) := do
  let s ← t.resolve directory
  let p := freshName (← s.entries) :: s.place
  return (p, t.put p (.file (.text "")))

/-- Where a file can be moved to. A place that holds a file is as good as an empty one. -/
def movable (t : FileTree) (target : Path) : Except IoError Place :=
  if target.isTooLong then .error .nameTooLong
  else match target.names.reverse with
  | [] => .error (if target.isEmpty then .notFound else .busy)
  | name :: above => do
    let s ← (← (t.start target).walk above.reverse).enter name
    if target.ending = .dot then
      let _ ← s.entries
      .error .busy
    else if name = ".." then .error .busy
    else if target.ending = .slash then .error .notDirectory
    else match s.node? with
      | some (.directory _) => .error .isDirectory
      | _ => .ok s.place

/-- Move the file at a place. -/
def move (t : FileTree) (source : Place) (target : Path) : Except IoError FileTree :=
  match t.movable target, t.at? source with
  | .error e, _ => .error e
  | .ok _, none => .error .notFound
  | .ok place, some node => .ok ((t.erase source).put place node)

end FileTree

end TrapFacts
