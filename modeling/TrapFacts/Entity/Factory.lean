import TrapFacts.Program

/-!
Factories: how the entity of a recipe is made from the model. A factory makes the entities that
its own refers to first.
-/

namespace TrapFacts

/-- The text with every backslash turned into a slash. -/
def slashed (path : String) : String :=
  path.map fun c => if c = '\\' then '/' else c

namespace Model

variable (m : Model)

/-- The label of a type. -/
def typeLabel (symbol : SymbolId) : Prog Label := do
  let s ← Prog.ofExcept (m.symbol symbol)
  if s.kind = .pointer then
    return (← Prog.entity (.pointer symbol)).label
  else if s.kind.isType then
    return (← Prog.entity (.namedType symbol)).label
  else .fail (.internalAt symbol ("Expected a type but found a " ++ s.kind.name))

/-- The label of a type, if there is one. -/
def typeLabel? : Option SymbolId → Prog (Option Label)
  | none => .pure none
  | some symbol => return some (← m.typeLabel symbol)

/-- The label of a namespace, if there is one. -/
def spaceLabel? : Option SymbolId → Prog (Option Label)
  | none => .pure none
  | some symbol => return some (← Prog.entity (.space symbol)).label

def makeLocation : Option Declaration → Prog Entity
  | none => return .location (← Prog.entity (.file "")).label none
  | some place => do
    let tree ← Prog.ofExcept (m.tree place.tree)
    return .location (← Prog.entity (.file tree.path)).label (some place.span)

/-- An assembly's file is the one set for it, else the one the model names, else none. -/
def makeAssembly (name : String) : Prog Entity := do
  let set ← Prog.assemblyFile name .pure
  let path := slashed ((set.or ((m.assembly? name).map (·.path))).getD "")
  return .assembly name path (← Prog.entity (.file path)).label

def makeSpace (symbol : SymbolId) : Prog Entity := do
  let s ← Prog.ofExcept (m.symbol symbol)
  return .space symbol s.name (← spaceLabel? s.containingNamespace)

/-- A nested type names its container, any other its namespace. Type arguments count only where
there is a definition that they are given to. -/
def makeNamedType (symbol : SymbolId) : Prog Entity := do
  let s ← Prog.ofExcept (m.symbol symbol)
  let container ← m.typeLabel? s.containingType
  let space ← spaceLabel? (if container.isNone then s.containingNamespace else none)
  let definition ← m.typeLabel? (s.constructedFrom? symbol)
  let arguments ← Prog.collect (if definition.isSome then s.typeArguments else []) m.typeLabel
  return .namedType {
    symbol, kind := s.kind, name := s.name, space, container, definition, arguments
    location := s.locations.head? }

def makePointer (symbol : SymbolId) : Prog Entity := do
  let s ← Prog.ofExcept (m.symbol symbol)
  match s.pointedAt with
  | none => .fail (.internalAt symbol "Pointer type without pointee")
  | some pointee => return .pointer symbol (← m.typeLabel pointee)

def makeMethod (symbol : SymbolId) : Prog Entity := do
  let s ← Prog.ofExcept (m.symbol symbol)
  match s.containingType with
  | none => .fail (.internalAt symbol "Method without a containing type")
  | some declaringSymbol =>
    let declaring ← m.typeLabel declaringSymbol
    let returnType ← m.typeLabel? s.returnType
    let parameters ← Prog.collect s.parameters fun p => m.typeLabel p.type
    return .method {
      symbol, kind := s.kind, name := s.name, declaringSymbol, declaring, returnType, parameters
      location := s.locations.head? }

/-- The program that makes the entity of a recipe. -/
def factory : Recipe → Prog Entity
  | .file path => .pure (.file (slashed path))
  | .location place => m.makeLocation place
  | .assembly name => m.makeAssembly name
  | .space symbol => m.makeSpace symbol
  | .namedType symbol => m.makeNamedType symbol
  | .pointer symbol => m.makePointer symbol
  | .method symbol => m.makeMethod symbol

end Model

/-- Types and methods are told apart by their symbols, everything else by its key. -/
def Recipe.slot : Recipe → Slot
  | .namedType symbol => .object .namedType (.symbol symbol)
  | .pointer symbol => .object .pointer (.symbol symbol)
  | .method symbol => .object .method (.symbol symbol)
  | _ => .value

end TrapFacts
