import TrapFacts.Config.Basic

/-!
Files, and directories with what is in them.
-/

namespace TrapFacts

/-- What a file holds. -/
inductive Content where
  | text (value : String)
  /-- A text in compressed form. -/
  | gzip (value : String)
  | bytes (value : ByteArray)

namespace Content

/-- Compressed data is never UTF-8. -/
def text? : Content → Option String
  | text s => some s
  | gzip _ => none
  | bytes b => String.fromUTF8? b

/-- A text in the form that a compression gives it. -/
def pack : Compression → String → Content
  | .none, s => text s
  | .gzip, s => gzip s

end Content

/-- A file, or a directory with what is in it. -/
inductive FileNode where
  | directory (entries : List (String × FileNode))
  | file (content : Content)

/-- A place in a tree, as the names that lead to it, innermost first. The root has no name. -/
abbrev Place := List String

namespace FileNode

/-- Change what has a name. What is taken away leaves nothing of that name behind. -/
def alterEntry (f : Option FileNode → Option FileNode) (name : String) :
    List (String × FileNode) → List (String × FileNode)
  | [] => ((f none).map fun node => (name, node)).toList
  | (other, node) :: rest =>
    if other = name then
      match f (some node) with
      | some node => (name, node) :: rest
      | none => rest.filter (·.1 ≠ name)
    else (other, node) :: alterEntry f name rest

/-- Change what is below a node, where the names lead, outermost first. Only what is in a directory
can be changed. -/
def alter (f : Option FileNode → Option FileNode) : List String → FileNode → FileNode
  | [], node => node
  | _, file content => file content
  | [name], directory entries => directory (alterEntry f name entries)
  | name :: names, directory entries =>
    directory (alterEntry (Option.map (alter f names)) name entries)

/-- What is below a node, where the names lead, outermost first. -/
def find? : List String → FileNode → Option FileNode
  | [], node => some node
  | _, file _ => none
  | name :: names, directory entries => (entries.lookup name).bind (find? names)

mutual

/-- The regular files at a place and below, each with its own place. -/
def files (p : Place) : FileNode → List (Place × Content)
  | directory entries => filesIn p entries
  | file content => [(p, content)]

def filesIn (p : Place) : List (String × FileNode) → List (Place × Content)
  | [] => []
  | (name, node) :: rest => node.files (name :: p) ++ filesIn p rest

end

end FileNode

end TrapFacts
