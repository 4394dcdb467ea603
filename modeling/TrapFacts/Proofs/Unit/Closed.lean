import Mathlib.Logic.Relation
import TrapFacts.TrapUnit

/-! The symbols that a unit has reason to reach. -/

namespace TrapFacts

namespace Model

variable (m : Model) (id : SymbolId) (s : Symbol)

def IsNamedType : Prop :=
  m.symbol id = .ok s ∧ s.kind.isType = true ∧ s.kind ≠ .pointer

def IsPointer : Prop :=
  m.symbol id = .ok s ∧ s.kind = .pointer

def IsMethod : Prop :=
  m.symbol id = .ok s ∧ s.kind.isMethod = true

/-- What is made a namespace: a symbol that is one, or that another symbol is said to be in. -/
def IsSpace : Prop :=
  ∃ a s, m.symbol a = .ok s ∧ (a = id ∧ s.kind = .space ∨ s.containingNamespace = some id)

def Extractable : Prop :=
  ∃ s, m.symbol id = .ok s ∧ (s.kind.isType = true ∨ s.kind.isMethod = true)

def Holds (a b : SymbolId) : Prop :=
  ∃ s, m.symbol a = .ok s ∧ s.kind = .space ∧ b ∈ s.members

/-- A visit of a namespace goes on to the members that the unit defines. -/
def Visits (scope : Scope) (a b : SymbolId) : Prop :=
  m.Holds a b ∧ scope.defines m b = .ok true

end Model

/-- The symbols that a unit starts from: what is declared in a file and in the namespaces visited
from there, or the types of an assembly that stand on their own. -/
def TrapUnit.Root (m : Model) (scope : Scope) : TrapUnit → SymbolId → Prop
  | .source tree, id => m.Extractable id ∧ ∃ t, m.tree tree = .ok t ∧ ∃ member ∈ t.members,
      Relation.ReflTransGen (m.Visits scope) member id
  | .assembly name, id => ∃ s, m.symbol id = .ok s ∧ s.containingAssembly = some name ∧
      s.kind.isType = true ∧ s.containingType = none ∧ s.constructedFrom? id = none
  | .compilation, _ => False

/-- A set that holds what the unit starts from and whatever its types and methods lead to. The
first fields are what the making of an entity asks for, the last two what its description does. -/
structure Closed (m : Model) (scope : Scope) (unit : TrapUnit) (L : SymbolId → Prop) : Prop where
  roots : ∀ id, unit.Root m scope id → L id
  container : ∀ id s c, L id → m.IsNamedType id s → s.containingType = some c → L c
  definition : ∀ id s d, L id → m.IsNamedType id s → s.constructedFrom? id = some d → L d
  arguments : ∀ id s, L id → m.IsNamedType id s → (s.constructedFrom? id).isSome = true →
    ∀ a ∈ s.typeArguments, L a
  pointee : ∀ id s p, L id → m.IsPointer id s → s.pointedAt = some p → L p
  owner : ∀ id s c, L id → m.IsMethod id s → s.containingType = some c → L c
  returnType : ∀ id s r, L id → m.IsMethod id s → s.returnType = some r → L r
  parameters : ∀ id s, L id → m.IsMethod id s → ∀ p ∈ s.parameters, L p.type
  /-- What a named type declares, if the unit defines it and it was resolved and not constructed. -/
  members : ∀ id s, L id → m.IsNamedType id s → s.kind ≠ .error → s.constructedFrom? id = none →
    scope.defines m id = .ok true → ∀ member ∈ s.members, m.Extractable member → L member
  /-- The type arguments of a constructed type, of any kind, that has a method. -/
  ownerArguments : ∀ id s c t, L id → m.IsMethod id s → s.containingType = some c →
    m.symbol c = .ok t → (t.constructedFrom? c).isSome = true → ∀ a ∈ t.typeArguments, L a

/-- The symbols of an assembly are those that say so. -/
theorem Model.mem_assemblySymbols {m : Model} {name : String} {id : SymbolId} {s : Symbol}
    (hs : m.symbol id = .ok s) :
    id ∈ m.assemblySymbols name ↔ s.containingAssembly = some name := by
  have hget : m.symbols[id.index]? = some s := by
    unfold symbol at hs
    split at hs
    · next h => rw [h, Except.ok.inj hs]
    · cases hs
  have hlt : id.index < m.symbols.length := (List.getElem?_eq_some_iff.1 hget).1
  simp only [assemblySymbols, List.mem_map, List.mem_filter, List.mem_range, beq_iff_eq]
  refine ⟨?_, fun ha => ⟨id.index, ⟨hlt, by simp [hget, ha]⟩, rfl⟩⟩
  rintro ⟨i, ⟨_, ha⟩, rfl⟩
  simpa [hget] using ha

/-- An assembly starts from its types that stand on their own. -/
theorem TrapUnit.root_assembly {m : Model} {scope : Scope} {name : String} {id : SymbolId}
    {s : Symbol} (hs : m.symbol id = .ok s) :
    (assembly name).Root m scope id ↔
      id ∈ m.assemblySymbols name ∧ isTopLevelType s id = true := by
  simp only [Model.mem_assemblySymbols hs, isTopLevelType, Bool.and_eq_true,
    Option.isNone_iff_eq_none, and_assoc]
  refine ⟨?_, fun h => ⟨s, hs, h⟩⟩
  rintro ⟨s', hs', h⟩
  obtain rfl : s = s' := Except.ok.inj (hs.symm.trans hs')
  exact h

/-- All symbols taken together leave nothing out. -/
theorem closed_univ (m : Model) (scope : Scope) (unit : TrapUnit) :
    Closed m scope unit fun _ => True := by
  constructor <;> intros <;> trivial

end TrapFacts
