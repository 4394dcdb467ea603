import TrapFacts.Entity.Behavior
import TrapFacts.Key
import TrapFacts.Model.Basic

/-!
Entities: what a trap gives labels to. An entity refers to others by their labels alone, so its
key never runs in circles.
-/

namespace TrapFacts

/-- A class, struct, interface, enum or delegate, one constructed from a generic, or a type that
was not resolved. -/
structure NamedType where
  symbol : SymbolId
  kind : SymbolKind
  name : String
  space : Option Label
  container : Option Label
  definition : Option Label
  arguments : List Label
  location : Option Declaration
  deriving DecidableEq

/-- A method, constructor or accessor. -/
structure Method where
  symbol : SymbolId
  kind : SymbolKind
  name : String
  declaringSymbol : SymbolId
  declaring : Label
  returnType : Option Label
  parameters : List Label
  location : Option Declaration
  deriving DecidableEq

/-- An entity of which only the outward features are known. -/
structure Custom where
  key : Key
  behavior : Behavior
  needsPopulation : Bool := true
  location : Option Declaration := none
  symbol : Option SymbolId := none
  deriving DecidableEq

inductive Entity where
  | file (path : String)
  | location (file : Label) (span : Option Span)
  | assembly (name path : String) (file : Label)
  | space (symbol : SymbolId) (name : String) (parent : Option Label)
  | namedType (type : NamedType)
  | pointer (symbol : SymbolId) (pointee : Label)
  | method (method : Method)
  | custom (features : Custom)
  deriving DecidableEq

namespace Span

/-- The span of what was generated. -/
def zero : Span :=
  ⟨0, 0, 0, 0⟩

def numbers (s : Span) : List Nat :=
  [s.startLine, s.startColumn, s.endLine, s.endColumn]

def key (s : Span) : Key :=
  Key.join "," (s.numbers.map fun n => .int (Int.ofNat n) .nil)

end Span

namespace NamedType

def isConstructed (t : NamedType) : Bool :=
  t.definition.isSome

/-- The label in front of the name: the container, else the namespace. -/
def parent? (t : NamedType) : Option Label :=
  t.container.or t.space

def key (t : NamedType) : Key :=
  match t.definition, t.parent? with
  | some definition, _ =>
    .label definition (.text "<" (Key.join "," (t.arguments.map Key.ofLabel) ++ .literal ">;type"))
  | none, some parent => .label parent (.text "." (.text t.name (.literal ";type")))
  | none, none => .text t.name (.literal ";type")

end NamedType

namespace Method

def key (m : Method) : Key :=
  .label m.declaring (.text "." (.text m.name (.text "("
    (Key.join "," (m.parameters.map Key.ofLabel) ++ .literal ");method"))))

end Method

namespace Entity

/-- The text without the slashes in front. -/
def trimSlashes (s : String) : String :=
  String.ofList (s.toList.dropWhile (· == '/'))

/-- The global namespace has neither parent nor name. -/
def isGlobal (name : String) (parent : Option Label) : Bool :=
  parent.isNone && name.isEmpty

/-- What identifies an entity. -/
def key : Entity → Key
  | file path => .text path (.literal ";sourcefile")
  | location f (some span) =>
    .label f (.text "," (.nest span.key (.literal ";sourcelocation")))
  | location f none => .text "loc," (.label f (.text "," (.nest Span.zero.key .nil)))
  | assembly name path _ =>
    .text name (.text "#file:///" (.text (trimSlashes path) (.literal ";assembly")))
  | space _ name (some parent) =>
    .label parent (.text "." (.text name (.literal ";namespace")))
  | space _ name none =>
    if name.isEmpty then .literal ";namespace" else .text name (.literal ";namespace")
  | namedType t => t.key
  | pointer _ pointee => .label pointee (.literal "*;type")
  | method m => m.key
  | custom c => c.key

def behavior : Entity → Behavior
  | file _ => .noScope
  | location _ _ => .optionalScope
  | assembly _ _ _ => .noScope
  | space _ _ _ => .noScope
  | namedType _ => .pushesScope
  | pointer _ _ => .optionalScope
  | method _ => .pushesScope
  | custom c => c.behavior

def needsPopulation : Entity → Bool
  | custom c => c.needsPopulation
  | _ => true

/-- The place named in the entity's duplication guard; absent, the entity counts as generated. -/
def reportingLocation? : Entity → Option Declaration
  | namedType t => t.location
  | method m => m.location
  | custom c => c.location
  | _ => none

/-- The symbol that diagnostics about the entity name. -/
def symbol? : Entity → Option SymbolId
  | space symbol _ _ => some symbol
  | namedType t => some t.symbol
  | pointer symbol _ => some symbol
  | method m => some m.symbol
  | custom c => c.symbol
  | _ => none

end Entity

/-- The types of entities that are created from an object of the frontend. -/
inductive EntityType where
  | namedType
  | pointer
  | method
  | custom (name : String)
  deriving DecidableEq, Hashable

/-- How an entity is told from others: by the object it comes from, or by its rendered key. -/
inductive Slot where
  | value
  | object (type : EntityType) (source : Source)
  deriving DecidableEq

/-- What a creation returns: an entity, and the label of the first entity that is the same. -/
structure Created where
  label : Label
  entity : Entity
  deriving DecidableEq

/-- How a created entity shows itself in a debugging print. -/
def Created.debugText (c : Created) : String :=
  "Cached \x7b label: Label(" ++ toString c.label.number ++ ") \x7d"

end TrapFacts
