import TrapFacts.Failure

/-!
The semantic model: what a frontend resolved for one compilation.
-/

namespace TrapFacts

inductive SymbolKind where
  /-- A namespace. -/
  | space
  | classType
  | struct
  | interface
  | enum
  | delegate
  | pointer
  | method
  | constructor
  | accessor
  /-- A type that the frontend could not resolve. -/
  | error
  deriving DecidableEq

namespace SymbolKind

def name : SymbolKind → String
  | .space => "namespace"
  | .classType => "class"
  | .struct => "struct"
  | .interface => "interface"
  | .enum => "enum"
  | .delegate => "delegate"
  | .pointer => "pointer"
  | .method => "method"
  | .constructor => "constructor"
  | .accessor => "accessor"
  | .error => "error"

def ofName? : String → Option SymbolKind
  | "namespace" => some .space
  | "class" => some .classType
  | "struct" => some .struct
  | "interface" => some .interface
  | "enum" => some .enum
  | "delegate" => some .delegate
  | "pointer" => some .pointer
  | "method" => some .method
  | "constructor" => some .constructor
  | "accessor" => some .accessor
  | "error" => some .error
  | _ => none

/-- The number of a kind of type in `types` facts. -/
def typeNumber? : SymbolKind → Option Nat
  | .classType => some 1
  | .struct => some 2
  | .interface => some 3
  | .enum => some 4
  | .delegate => some 5
  | .pointer => some 6
  | .error => some 7
  | _ => none

def isType (k : SymbolKind) : Bool :=
  k.typeNumber?.isSome

def isMethod : SymbolKind → Bool
  | .method => true
  | .constructor => true
  | .accessor => true
  | _ => false

end SymbolKind

/-- A stretch of a source file, by lines and columns. -/
structure Span where
  startLine : Nat
  startColumn : Nat
  endLine : Nat
  endColumn : Nat
  deriving DecidableEq

/-- A place where a symbol is declared. -/
structure Declaration where
  tree : TreeId
  span : Span
  deriving DecidableEq

structure Parameter where
  name : String
  type : SymbolId
  deriving DecidableEq

structure Symbol where
  name : String
  kind : SymbolKind
  containingNamespace : Option SymbolId := none
  containingType : Option SymbolId := none
  containingAssembly : Option String := none
  locations : List Declaration := []
  /-- The generic definition that the symbol was constructed from; absent, the symbol itself. -/
  genericDefinition : Option SymbolId := none
  typeArguments : List SymbolId := []
  members : List SymbolId := []
  pointedAt : Option SymbolId := none
  returnType : Option SymbolId := none
  parameters : List Parameter := []
  /-- The property or event that an accessor belongs to. -/
  associatedSymbol : Option SymbolId := none
  deriving DecidableEq

namespace Symbol

/-- A namespace without a parent is the global one. -/
def isGlobalNamespace (s : Symbol) : Bool :=
  s.kind = .space && s.containingNamespace.isNone

/-- The definition that the symbol `id` was constructed from, if that is not the symbol itself. -/
def constructedFrom? (s : Symbol) (id : SymbolId) : Option SymbolId :=
  s.genericDefinition.filter (· ≠ id)

end Symbol

/-- A source file and the symbols declared at its top level. -/
structure SyntaxTree where
  path : String
  lines : Nat := 0
  members : List SymbolId := []
  deriving DecidableEq

structure AssemblyInfo where
  name : String
  path : String
  deriving DecidableEq

/-- How the frontend was called. -/
structure CompilationInfo where
  workingDirectory : String := ""
  args : List String := []
  references : List String := []
  deriving DecidableEq

structure Model where
  compilation : CompilationInfo := {}
  assemblies : List AssemblyInfo := []
  trees : List SyntaxTree := []
  symbols : List Symbol := []
  deriving DecidableEq

namespace Model

instance : Inhabited Model := ⟨{}⟩

def symbol (m : Model) (id : SymbolId) : Except Failure Symbol :=
  match m.symbols[id.index]? with
  | some s => .ok s
  | none => .error (.unknownSymbol id)

def tree (m : Model) (id : TreeId) : Except Failure SyntaxTree :=
  match m.trees[id.index]? with
  | some t => .ok t
  | none => .error (.unknownTree id)

def treeIds (m : Model) : List TreeId :=
  (List.range m.trees.length).map TreeId.mk

/-- The first assembly of that name. -/
def assembly? (m : Model) (name : String) : Option AssemblyInfo :=
  m.assemblies.find? (·.name == name)

/-- The symbols that belong to an assembly, in the order of the table. -/
def assemblySymbols (m : Model) (name : String) : List SymbolId :=
  (List.range m.symbols.length).filter (fun i =>
    (m.symbols[i]?.bind (·.containingAssembly)) == some name) |>.map SymbolId.mk

def addSymbol (m : Model) (s : Symbol) : Model :=
  { m with symbols := m.symbols ++ [s] }

def addTree (m : Model) (t : SyntaxTree) : Model :=
  { m with trees := m.trees ++ [t] }

/-- Where a symbol is declared, as `path:line:column`. -/
def describeLocations (m : Model) (id : SymbolId) : List String :=
  match m.symbol id with
  | .error _ => []
  | .ok s => s.locations.map fun l =>
    let path := match m.tree l.tree with
      | .ok t => t.path
      | .error _ => "<unknown>"
    path ++ ":" ++ toString l.span.startLine ++ ":" ++ toString l.span.startColumn

end Model

end TrapFacts
