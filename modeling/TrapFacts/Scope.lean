import TrapFacts.Model.Basic

/-!
Scopes: which symbols and files a unit owns. Constructed generics have no owner, so every unit
that reaches one defines it.
-/

namespace TrapFacts

inductive Scope where
  | source (tree : TreeId) (path : String)
  | assembly (name : String) (path : String)
  deriving DecidableEq

namespace Scope

def isAssembly : Scope → Bool
  | source _ _ => false
  | assembly _ _ => true

def path : Scope → String
  | source _ path => path
  | assembly _ path => path

/-- A source file owns what is declared in it, an assembly what is compiled into it. -/
def owns : Scope → Symbol → Bool
  | source tree _, s => s.locations.any (·.tree = tree)
  | assembly name _, s => s.containingAssembly = some name

def ownsFile (scope : Scope) (path : String) : Bool :=
  scope.path == path

/-- Whether the unit defines a symbol: it owns the symbol, or nobody does. -/
def defines (scope : Scope) (m : Model) (id : SymbolId) : Except Failure Bool :=
  match m.symbol id with
  | .error e => .error e
  | .ok s => .ok ((s.constructedFrom? id).isSome || scope.owns s)

end Scope

end TrapFacts
