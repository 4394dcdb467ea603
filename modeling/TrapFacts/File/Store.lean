import TrapFacts.File.Tree

/-!
What a run does to files, whether they are on a disk or in a tree.
-/

namespace TrapFacts

/-- The file operations of a run. -/
class FileStore (m : Type → Type) where
  /-- A file under a name that nobody else uses. -/
  Draft : Type
  readText : Path → m (Except IoError String)
  contains : Path → m Bool
  /-- Make a directory, and before it those above it that are missing. -/
  makeDirectories : Path → m (Option IoError)
  createTemporary : Path → m (Except IoError Draft)
  write : Draft → Content → m (Option IoError)
  /-- Give a draft its final name, in place of what had that name. -/
  move : Draft → Path → m (Option IoError)
  discard : Draft → m Unit

/-- A file operation that is done in one go. -/
inductive FileCall where
  | readText (path : Path)
  | contains (path : Path)
  | containsDirectory (path : Path)
  | makeDirectory (path : Path)
  | createTemporary (directory : Path)
  | write (draft : Place) (content : Content)
  | move (draft : Place) (target : Path)
  | discard (draft : Place)

namespace FileCall

def Answer : FileCall → Type
  | readText _ => Except IoError String
  | contains _ => Bool
  | containsDirectory _ => Bool
  | makeDirectory _ => Option IoError
  | createTemporary _ => Except IoError Place
  | write _ _ => Option IoError
  | move _ _ => Option IoError
  | discard _ => Unit

/-- The tree after an operation that gives a new one or fails. -/
def settle (t : FileTree) : Except IoError FileTree → Option IoError × FileTree
  | .ok t => (none, t)
  | .error e => (some e, t)

def run : (call : FileCall) → StateM FileTree call.Answer
  | readText path => fun t => (t.readText path, t)
  | contains path => fun t => (t.contains path, t)
  | containsDirectory path => fun t => (t.containsDirectory path, t)
  | makeDirectory path => fun t => settle t (t.makeDirectory path)
  | createTemporary directory => fun t =>
    match t.createTemporary directory with
    | .ok (draft, t) => (.ok draft, t)
    | .error e => (.error e, t)
  | write draft content => fun t => (none, t.put draft (.file content))
  | move draft target => fun t => settle t (t.move draft target)
  | discard draft => fun t => ((), t.erase draft)

end FileCall

instance : FileStore (StateM FileTree) where
  Draft := Place
  readText path := (FileCall.readText path).run
  contains path := (FileCall.contains path).run
  makeDirectories path := fun t => t.makeDirectories path path.steps.length
  createTemporary directory := (FileCall.createTemporary directory).run
  write draft content := (FileCall.write draft content).run
  move draft target := (FileCall.move draft target).run
  discard draft := (FileCall.discard draft).run

end TrapFacts
