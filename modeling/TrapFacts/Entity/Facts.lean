import TrapFacts.Engine
import TrapFacts.Entity.Factory

/-!
Facts: what a trap says of each entity, and the catalog that joins factories and facts.
-/

namespace TrapFacts

variable (m : Model) (scope : Scope)

/-- An index as an argument of a fact. -/
def Value.index (n : Nat) : Value :=
  .int n

/-- The arguments of a type of constructed generics, once for each label: whoever reaches the
type first states them. -/
def typeArgumentFacts (symbol : SymbolId) (label : Label) : Prog Unit := do
  let s ← Prog.ofExcept (m.symbol symbol)
  if (s.constructedFrom? symbol).isSome then
    if ← Prog.openGenerics label .pure then
      Prog.each s.typeArguments.zipIdx fun (argument, index) => do
        let argument ← m.typeLabel argument
        Prog.fact "type_arguments" [.label argument, .index index, .label label]

/-- One fact for each place where a symbol is declared. -/
def locationFacts (relation : String) (label : Label) (places : List Declaration) : Prog Unit :=
  Prog.each places fun place => do
    let location ← Prog.entity (.location (some place))
    Prog.fact relation [.label label, .label location.label]

/-- Make the entity of a type's member. -/
def extractMember (member : SymbolId) : Prog Unit := do
  let s ← Prog.ofExcept (m.symbol member)
  if s.kind.isType then
    let _ ← m.typeLabel member
  else if s.kind.isMethod then
    let _ ← Prog.entity (.method member)
  else
    .modelError (some member) ("Unhandled " ++ s.kind.name ++ " member") (.pure ())

/-- A unit tells the length of its own file. -/
def fileFacts (path : String) (label : Label) : Prog Unit := do
  Prog.fact "files" [.label label, .text path]
  if !path.isEmpty && scope.ownsFile path then
    match m.trees.find? (·.path == path) with
    | some tree => Prog.fact "numlines" [.label label, .index tree.lines]
    | none => pure ()

def placeFacts (file : Label) (span : Option Span) (label : Label) : Prog Unit :=
  Prog.fact "locations_default"
    (.label label :: .label file :: (span.getD .zero).numbers.map Value.index)

/-- Whether the trap of the unit is the one for an assembly. -/
def ownsAssembly : Scope → String → Bool
  | .assembly own _, name => own == name
  | .source _ _, _ => false

/-- The types that stand on their own: neither nested nor constructed. -/
def isTopLevelType (s : Symbol) (id : SymbolId) : Bool :=
  s.kind.isType && s.containingType.isNone && (s.constructedFrom? id).isNone

/-- The trap of an assembly holds its top-level types; elsewhere an assembly is only named. -/
def assemblyFacts (name : String) (file label : Label) : Prog Unit := do
  Prog.fact "assemblies" [.label label, .label file, .text name]
  if ownsAssembly scope name then
    Prog.each (m.assemblySymbols name) fun id => do
      let s ← Prog.ofExcept (m.symbol id)
      if isTopLevelType s id then
        .attempt none (some id) (do let _ ← m.typeLabel id) (.pure ())

def spaceFacts (name : String) (parent : Option Label) (label : Label) : Prog Unit := do
  Prog.fact "namespaces" [.label label, .text name]
  match parent with
  | some parent => Prog.fact "parent_namespace" [.label label, .label parent]
  | none => pure ()

/-- A fact about a label and another one, if there is another one. -/
def relatedFact (relation : String) (label : Label) : Option Label → Prog Unit
  | some other => Prog.fact relation [.label label, .label other]
  | none => .pure ()

/-- Declarations and members are told by the units that define the type. -/
def declaredTypeFacts (symbol : SymbolId) (label : Label) : Prog Unit := do
  if ← Prog.ofExcept (scope.defines m symbol) then
    let s ← Prog.ofExcept (m.symbol symbol)
    locationFacts "type_location" label s.locations
    Prog.each s.members fun member =>
      .attempt none (some member) (extractMember m member) (.pure ())

/-- An unresolved type is only named, a constructed one leads to its definition and arguments. -/
def namedTypeFacts (t : NamedType) (label : Label) : Prog Unit := do
  Prog.fact "types" [.label label, .index (t.kind.typeNumber?.getD 0), .text t.name]
  relatedFact "parent_namespace" label t.space
  relatedFact "nested_types" label t.container
  if t.kind = .error then
    .missingType (m.displayName t.symbol) (.pure ())
  else
    match t.definition with
    | some definition =>
      Prog.fact "constructed_from" [.label label, .label definition]
      typeArgumentFacts m t.symbol label
    | none => declaredTypeFacts m scope t.symbol label

def pointerFacts (symbol : SymbolId) (pointee label : Label) : Prog Unit := do
  Prog.fact "types"
    [.label label, .index (SymbolKind.pointer.typeNumber?.getD 0), .text (m.displayName symbol)]
  Prog.fact "pointer_referent_type" [.label label, .label pointee]

/-- One fact for each parameter, under a label of its own. -/
def parameterFacts (parameters : List Parameter) (types : List Label) (label : Label) : Prog Unit :=
  Prog.each (parameters.zip types).zipIdx fun ((parameter, type), index) => do
    let own ← Prog.freshLabel
    Prog.fact "params"
      [.label own, .text parameter.name, .label type, .index index, .label label]

def methodLocationFacts (f : Method) (places : List Declaration) (label : Label) : Prog Unit := do
  if ← Prog.ofExcept (scope.defines m f.symbol) then
    locationFacts "method_location" label places

/-- An accessor names what it belongs to. One that belongs to nothing is an error of the model,
and the places where it is declared are left out. -/
def methodFacts (f : Method) (label : Label) : Prog Unit := do
  Prog.fact "methods" [.label label, .text f.name, .label f.declaring]
  relatedFact "returns" label f.returnType
  let s ← Prog.ofExcept (m.symbol f.symbol)
  parameterFacts s.parameters f.parameters label
  typeArgumentFacts m f.declaringSymbol f.declaring
  if f.kind = .accessor then
    match s.associatedSymbol with
    | none =>
      .modelError (some f.symbol) "Unhandled accessor associated symbol" (.pure ())
    | some owner =>
      Prog.fact "accessors" [.label label, .text (m.displayName owner)]
      methodLocationFacts m scope f s.locations label
  else methodLocationFacts m scope f s.locations label

/-- What a trap says of an entity. -/
def facts : Entity → Label → Prog Unit
  | .file path, label => fileFacts m scope path label
  | .location file span, label => placeFacts file span label
  | .assembly name _ file, label => assemblyFacts m scope name file label
  | .space _ name parent, label => spaceFacts name parent label
  | .namedType t, label => namedTypeFacts m scope t label
  | .pointer symbol pointee, label => pointerFacts m symbol pointee label
  | .method f, label => methodFacts m scope f label
  | .custom _, _ => .pure ()

/-- The world of a unit: its model, its scope and the entities that the model gives rise to. -/
def World.ofModel : World where
  model := m
  scope := scope
  catalog recipe :=
    { slot := recipe.slot, factory := m.factory recipe, body := facts m scope }

end TrapFacts
