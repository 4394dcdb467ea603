/-!
Numbered handles: the symbols, trees and nodes of a semantic model, and the labels of a trap.
-/

namespace TrapFacts

/-- A symbol of the model, by its place in the symbol table. -/
structure SymbolId where
  index : Nat
  deriving DecidableEq, Hashable, Inhabited

/-- A source file of the model, by its place in the tree table. -/
structure TreeId where
  index : Nat
  deriving DecidableEq, Hashable, Inhabited

structure NodeId where
  index : Nat
  deriving DecidableEq, Hashable, Inhabited

/-- The short name of an entity inside one trap. Its number has no bound. A program that counts
labels in a word of 32 bits gives the same ones to the first `2 ^ 32` entities of a trap. -/
structure Label where
  number : Nat
  deriving DecidableEq, Hashable, Inhabited

/-- An object of the frontend that an entity can be created from. -/
inductive Source where
  | symbol (id : SymbolId)
  | tree (id : TreeId)
  | node (id : NodeId)
  deriving DecidableEq, Hashable

def SymbolId.text (id : SymbolId) : String :=
  "symbol " ++ toString id.index

def TreeId.text (id : TreeId) : String :=
  "tree " ++ toString id.index

def NodeId.text (id : NodeId) : String :=
  "node " ++ toString id.index

def Label.text (l : Label) : String :=
  "#" ++ toString l.number

end TrapFacts
