/-!
Paths of files. A path names its steps from the root or from the working directory. A step that
stays where it is counts only for the size of the text, and a path that ends in one must lead to a
directory.
-/

namespace TrapFacts

/-- How the text of a path ends behind its last name. -/
inductive Path.Ending where
  | name
  | slash
  | dot
  deriving DecidableEq

structure Path.Step where
  /-- The name `..` leads upwards. -/
  name : String
  /-- How many bytes of the text it takes, from the end of the step before. -/
  size : Nat
  deriving DecidableEq

structure Path where
  /-- The path starts at the root. -/
  isAbsolute : Bool
  /-- The steps, outermost first. -/
  steps : List Path.Step
  ending : Path.Ending := .name
  /-- How many bytes follow the last step. -/
  behind : Nat := 0
  deriving DecidableEq

namespace Path

instance : Inhabited Path := ⟨false, [], .dot, 1⟩

def names (p : Path) : List String :=
  p.steps.map (·.name)

/-- How many bytes steps take. -/
def extent (steps : List Step) : Nat :=
  steps.foldl (fun n s => n + s.size) 0

/-- How many bytes the text of a path has. -/
def size (p : Path) : Nat :=
  extent p.steps + p.behind

/-- How many bytes the text of a path may have. -/
def longest : Nat :=
  4095

/-- A path with too long a text leads nowhere, even if it has few steps. -/
def isTooLong (p : Path) : Bool :=
  longest < p.size

/-- The texts between the slashes, empty ones too. -/
def pieces : List Char → List (List Char)
  | [] => [[]]
  | c :: cs =>
    if c = '/' then [] :: pieces cs
    else match pieces cs with
      | [] => [[c]]
      | piece :: rest => (c :: piece) :: rest

/-- The texts between slashes that name something. Before them come `ahead` bytes that do not. -/
def stepsOf (ahead : Nat) : List (List Char) → List Step
  | [] => []
  | piece :: rest =>
    let name := String.ofList piece
    let size := ahead + name.utf8ByteSize
    if piece = [] || piece = ['.'] then stepsOf (size + 1) rest
    else ⟨name, size⟩ :: stepsOf 1 rest

/-- The names in a text, those that lead upwards too. -/
def stepNames (s : String) : List String :=
  (stepsOf 0 (pieces s.toList)).map (·.name)

/-- The names in a text that lead downwards. -/
def properNames (s : String) : List String :=
  (stepNames s).filter (· ≠ "..")

/-- How a text ends, from its texts between slashes in reverse. -/
def endingOf : List (List Char) → Ending
  | ['.'] :: _ => .dot
  | [] :: ['.'] :: _ => .dot
  | [] :: _ :: _ => .slash
  | _ => .name

/-- Empty texts at the end count as one. -/
def squeeze : List (List Char) → List (List Char)
  | [] :: [] :: rest => squeeze ([] :: rest)
  | pieces => pieces

def ofString (s : String) : Path :=
  let pieces := pieces s.toList
  let steps := stepsOf 0 pieces
  { isAbsolute := s.toList.head? = some '/'
    steps
    ending := endingOf (squeeze pieces.reverse)
    behind := s.utf8ByteSize - extent steps }

/-- A text that leads nowhere. -/
def isEmpty (p : Path) : Bool :=
  !p.isAbsolute && p.steps.isEmpty && p.ending = .name

/-- A path that ends with the first of the steps. -/
def take (p : Path) (n : Nat) : Path :=
  { p with steps := p.steps.take n, ending := .name, behind := 0 }

/-- The directory that holds what the path names. -/
def directory (p : Path) : Path :=
  { p.take (p.steps.length - 1) with ending := .dot }

/-- What the path names inside a directory. -/
def child (p : Path) (name : String) : Path :=
  { p with
    steps := p.steps ++ [⟨name, p.behind + 1 + name.utf8ByteSize⟩]
    ending := .name
    behind := 0 }

def endingText (named : Bool) : Ending → String
  | .name => ""
  | .slash => if named then "/" else ""
  | .dot => if named then "/." else "."

/-- The text of a path, without what makes no difference. -/
def text (p : Path) : String :=
  (if p.isAbsolute then "/" else "") ++ "/".intercalate p.names
    ++ endingText (!p.steps.isEmpty) p.ending

/-- The text of a directory, ready to be continued. -/
def lead (directory : String) : String :=
  if directory.isEmpty || directory.toList.getLast? = some '/' then directory
  else directory ++ "/"

/-- The text of a path that starts in a directory. One that starts at the root stays as it is. -/
def below (directory relative : String) : String :=
  if relative.toList.head? = some '/' then relative else lead directory ++ relative

end Path

end TrapFacts
