import TrapFacts.Proofs.Engine.Trail
import TrapFacts.TrapUnit

/-! How the programs of a unit behave, and which labels their records mention. -/

namespace TrapFacts

variable {m : Model} {scope : Scope} {o : List Due} {b : Bool} {cx cx' : Context} {e : Event}
  {r : Record} {slot : Slot} {en : Entity} {l : Label}

def Key.labels : Key → List Label
  | .nil => []
  | .text _ rest => rest.labels
  | .int _ rest => rest.labels
  | .label l rest => l :: rest.labels
  | .nest k rest => k.labels ++ rest.labels

def Value.label? : Value → Option Label
  | .label l => some l
  | _ => none

namespace Record

def keyLabels : Record → List Label
  | .define _ key => key.labels
  | .push key => key.labels
  | _ => []

def argLabels : Record → List Label
  | .tuple fact => fact.args.filterMap Value.label?
  | _ => []

end Record

/-- The relations of which each label has one row. -/
def describing : List String :=
  ["files", "locations_default", "assemblies", "namespaces", "types", "methods", "compilations",
    "params"]

namespace Entity

/-- The relation that describes an entity of its kind. -/
def relation? : Entity → Option String
  | .file _ => some "files"
  | .location _ _ => some "locations_default"
  | .assembly _ _ _ => some "assemblies"
  | .space _ _ _ => some "namespaces"
  | .namedType _ => some "types"
  | .pointer _ _ => some "types"
  | .method _ => some "methods"
  | .custom _ => none

/-- The labels of the entities that an entity refers to. -/
def labels : Entity → List Label
  | .file _ => []
  | .location f _ => [f]
  | .assembly _ _ f => [f]
  | .space _ _ parent => parent.toList
  | .namedType t => t.space.toList ++ t.container.toList ++ t.definition.toList ++ t.arguments
  | .pointer _ pointee => [pointee]
  | .method f => f.declaring :: (f.returnType.toList ++ f.parameters)
  | .custom _ => []

end Entity

namespace Model

def firstDeclaration? (m : Model) (id : SymbolId) : Option Declaration :=
  match m.symbol id with
  | .ok s => s.locations.head?
  | .error _ => none

/-- The entities that the model gives rise to. A type or a method is placed where it is declared
first. -/
def Fits (m : Model) : Entity → Prop
  | .namedType t => t.location = m.firstDeclaration? t.symbol
  | .method f => f.location = m.firstDeclaration? f.symbol
  | .custom _ => False
  | _ => True

/-- The tree of a place, if the model has no such tree. -/
def missingTree? (m : Model) (place : Declaration) : Option TreeId :=
  match m.tree place.tree with
  | .ok _ => none
  | .error _ => some place.tree

/-- The tree where a type or a method is declared first, if the model has no such tree. -/
def strayTree? (m : Model) : Entity → Option TreeId
  | .namedType t => (m.firstDeclaration? t.symbol).bind m.missingTree?
  | .method f => (m.firstDeclaration? f.symbol).bind m.missingTree?
  | _ => none

end Model

namespace Context

/-- A label that a key defines. -/
def Keyed (cx : Context) (l : Label) : Prop :=
  ∃ key, .define l key ∈ cx.trap

/-- A label that the trap introduces, for a key or not. -/
def Known (cx : Context) (l : Label) : Prop :=
  ∃ r ∈ cx.trap, r.introduced? = some l

/-- A label that facts may mention: one with a key, or that of the compilation. -/
def Citable (cx : Context) (l : Label) : Prop :=
  cx.Keyed l ∨ cx.Known l ∧ ∃ rest, .tuple ⟨"compilations", .label l :: rest⟩ ∈ cx.trap

/-- A label with a key was introduced. -/
theorem Keyed.known (h : cx.Keyed l) : cx.Known l := by
  obtain ⟨key, hr⟩ := h
  exact ⟨_, hr, rfl⟩

theorem Keyed.mono (h : cx.Keyed l) (he : cx.events <+: cx'.events) : cx'.Keyed l := by
  obtain ⟨key, hr⟩ := h
  exact ⟨key, (trap_mono he).subset hr⟩

theorem Known.mono (h : cx.Known l) (he : cx.events <+: cx'.events) : cx'.Known l := by
  obtain ⟨r, hr, hi⟩ := h
  exact ⟨r, (trap_mono he).subset hr, hi⟩

theorem Citable.known (h : cx.Citable l) : cx.Known l :=
  h.elim Keyed.known And.left

theorem Citable.mono (h : cx.Citable l) (he : cx.events <+: cx'.events) : cx'.Citable l := by
  rcases h with hk | ⟨hk, rest, hr⟩
  · exact .inl (hk.mono he)
  · exact .inr ⟨hk.mono he, rest, (trap_mono he).subset hr⟩

end Context

/-- What the programs of a unit do on their own account. -/
inductive OwnStep : Context → Context → Prop
  | fact (cx : Context) {t : Tuple} : t.relation ∉ describing →
      (∀ l ∈ t.args.filterMap Value.label?, cx.Citable l) → OwnStep cx (cx.write (.tuple t))
  /-- A label without a key, and the row that describes it. -/
  | fresh (cx : Context) {relation : String} {args : List Value} :
      relation = "compilations" ∨ relation = "params" →
      (∀ l ∈ args.filterMap Value.label?, cx.Keyed l) →
      OwnStep cx ((cx.allocate.write (.fresh cx.nextLabel)).write
        (.tuple ⟨relation, .label cx.nextLabel :: args⟩))
  | missingType (cx : Context) (name) : OwnStep cx (cx.missingType name)
  | openGenerics (cx : Context) (label) : OwnStep cx (cx.openGenerics label)

/-- The row that a description of an entity opens with. -/
def Opening (en : Entity) (l : Label) (cx cx' : Context) : Prop :=
  ∃ relation args, en.relation? = some relation ∧
    (∀ l ∈ args.filterMap Value.label?, l ∈ en.labels) ∧
    cx' = cx.write (.tuple ⟨relation, .label l :: args⟩)

/-- How the programs of a unit behave. They open no guards of their own. -/
def Manner.ofModel (m : Model) (scope : Scope) : Manner where
  deed := OwnStep
  opening := Opening
  closing _ _ _ _ := True
  entity _ en cx := m.Fits en ∧ ∀ l ∈ en.labels, cx.Keyed l
  body en l p := m.Fits en ∧ p = facts m scope en l
  place en := m.strayTree? en = none
  site _ _ _ := True
  guard _ := False
  excuse en message := ∃ tree, m.strayTree? en = some tree ∧
    message = m.failureMessage (.unknownTree tree) none en.symbol?
  catches := False
  deeds h := by
    cases h with
    | fact => exact .single (.emit _ _)
    | fresh => exact .tail (.single (.fresh _)) (.emit _ _)
    | missingType => exact .single (.missingType _ _)
    | openGenerics => exact .single (.openGenerics _ _)
  openings h := by
    obtain ⟨relation, args, _, _, rfl⟩ := h
    exact .single (.emit _ _)

end TrapFacts
