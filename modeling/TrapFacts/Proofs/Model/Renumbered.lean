import Mathlib.Logic.Equiv.Basic
import TrapFacts.Context
import TrapFacts.Proofs.Model.Naming

/-! Models with their symbols in another order. Where there is no circle, names stay the same. -/

namespace TrapFacts

open Relation (ReflTransGen)

variable {m : Model} {σ : Equiv.Perm (Fin m.symbols.length)} {s : Symbol} {id : SymbolId}

def Parameter.renumber (σ : Equiv.Perm SymbolId) (p : Parameter) : Parameter :=
  { p with type := σ p.type }

def Symbol.renumber (σ : Equiv.Perm SymbolId) (s : Symbol) : Symbol :=
  { s with
    containingNamespace := s.containingNamespace.map σ
    containingType := s.containingType.map σ
    genericDefinition := s.genericDefinition.map σ
    typeArguments := s.typeArguments.map σ
    members := s.members.map σ
    pointedAt := s.pointedAt.map σ
    returnType := s.returnType.map σ
    parameters := s.parameters.map (·.renumber σ)
    associatedSymbol := s.associatedSymbol.map σ }

def SyntaxTree.renumber (σ : Equiv.Perm SymbolId) (t : SyntaxTree) : SyntaxTree :=
  { t with members := t.members.map σ }

@[simp] theorem Symbol.kind_renumber (σ : Equiv.Perm SymbolId) (s : Symbol) :
    (s.renumber σ).kind = s.kind := rfl

theorem Symbol.constructedFrom?_renumber (σ : Equiv.Perm SymbolId) (s : Symbol) (id : SymbolId) :
    (s.renumber σ).constructedFrom? (σ id) = (s.constructedFrom? id).map σ := by
  unfold constructedFrom?
  cases hdefinition : s.genericDefinition with
  | none => simp [renumber, hdefinition]
  | some definition =>
    by_cases hself : definition = id
    · simp [renumber, hdefinition, hself, Option.filter]
    · simp [renumber, hdefinition, hself, Option.filter]

theorem Symbol.pointee?_renumber (σ : Equiv.Perm SymbolId) (s : Symbol) :
    (s.renumber σ).pointee? = s.pointee?.map σ := by
  unfold pointee?
  rw [kind_renumber]
  split
  · rfl
  · rfl

namespace Model

def places (m : Model) : Fin m.symbols.length ≃ {id : SymbolId // id.index < m.symbols.length} where
  toFun i := ⟨⟨i⟩, i.isLt⟩
  invFun id := ⟨id.1.index, id.2⟩
  left_inv _ := rfl
  right_inv _ := rfl

/-- The new numbers of all symbols. Those that are not in the table keep theirs. -/
def numbering (m : Model) (σ : Equiv.Perm (Fin m.symbols.length)) : Equiv.Perm SymbolId :=
  σ.extendDomain m.places

/-- The model with its table in another order, all references renamed accordingly. -/
def renumber (m : Model) (σ : Equiv.Perm (Fin m.symbols.length)) : Model :=
  { m with
    trees := m.trees.map (·.renumber (m.numbering σ))
    symbols := List.ofFn fun i => m.symbols[σ.symm i].renumber (m.numbering σ) }

theorem numbering_of_lt (h : id.index < m.symbols.length) :
    m.numbering σ id = ⟨(σ ⟨id.index, h⟩).val⟩ :=
  Equiv.Perm.extendDomain_apply_subtype σ m.places h

theorem numbering_of_not_lt (h : ¬ id.index < m.symbols.length) : m.numbering σ id = id :=
  Equiv.Perm.extendDomain_apply_not_subtype σ m.places h

@[simp] theorem length_renumber : (m.renumber σ).symbols.length = m.symbols.length :=
  List.length_ofFn

/-- Under its new number, a symbol is the one that it was. -/
theorem getElem?_renumber (id : SymbolId) : (m.renumber σ).symbols[(m.numbering σ id).index]? =
    m.symbols[id.index]?.map (·.renumber (m.numbering σ)) := by
  by_cases hin : id.index < m.symbols.length
  · rw [numbering_of_lt hin, List.getElem?_eq_getElem hin]
    simp [renumber]
  · rw [numbering_of_not_lt hin, List.getElem?_eq_none (Nat.le_of_not_lt hin),
      List.getElem?_eq_none (by simpa using hin)]
    rfl

/-- Renumbering moves each symbol to its new number. -/
theorem symbol_renumber (id : SymbolId) : (m.renumber σ).symbol (m.numbering σ id) =
    (m.symbol id).map (·.renumber (m.numbering σ)) := by
  unfold symbol
  rw [getElem?_renumber]
  cases hs : m.symbols[id.index]? with
  | some s => rfl
  | none =>
    have hout : ¬ id.index < m.symbols.length := Nat.not_lt.2 (List.getElem?_eq_none_iff.1 hs)
    rw [numbering_of_not_lt hout]
    rfl

theorem tree_renumber (tree : TreeId) :
    (m.renumber σ).tree tree = (m.tree tree).map (·.renumber (m.numbering σ)) := by
  unfold Model.tree
  rw [show (m.renumber σ).trees[tree.index]? =
    m.trees[tree.index]?.map (·.renumber (m.numbering σ)) from List.getElem?_map]
  cases m.trees[tree.index]? <;> rfl

theorem owner?_renumber (s : Symbol) : (m.renumber σ).owner? (s.renumber (m.numbering σ)) =
    (m.owner? s).map (m.numbering σ) := by
  have hglobal : ∀ ns : SymbolId,
      (m.renumber σ).symbols[(m.numbering σ ns).index]?.map Symbol.isGlobalNamespace =
        m.symbols[ns.index]?.map Symbol.isGlobalNamespace := by
    intro ns
    rw [getElem?_renumber, Option.map_map]
    congr 1
    funext s
    simp [Symbol.isGlobalNamespace, Symbol.renumber]
  unfold owner?
  rw [Option.map_or]
  congr 1
  cases hspace : s.containingNamespace with
  | none => simp [Symbol.renumber, hspace]
  | some ns => simp [Symbol.renumber, hspace, hglobal, Option.filter]

/-- A plain name mentions no numbers but those of symbols that are not in the table. -/
theorem plainName_renumber (name : SymbolId → String) (id : SymbolId) :
    (m.renumber σ).plainName name (m.numbering σ id) =
      m.plainName (fun a => name (m.numbering σ a)) id := by
  unfold plainName
  rw [getElem?_renumber]
  cases hs : m.symbols[id.index]? with
  | none =>
    have hout : ¬ id.index < m.symbols.length := Nat.not_lt.2 (List.getElem?_eq_none_iff.1 hs)
    rw [numbering_of_not_lt hout]
    rfl
  | some s =>
    have harguments : (s.renumber (m.numbering σ)).typeArguments.map name =
        s.typeArguments.map fun a => name (m.numbering σ a) := List.map_map
    simp only [Option.map_some, owner?_renumber, Symbol.pointee?_renumber, Option.map_map,
      harguments]
    rfl

/-- Without circles, a symbol has the same name whatever its number. -/
theorem displayName_renumber (h : m.NoCircle id) :
    (m.renumber σ).displayName (m.numbering σ id) = m.displayName id := by
  -- The name that the other model gives, on a path that is renumbered like the symbol.
  let name (a : SymbolId) (path : List SymbolId) : String :=
    (m.renumber σ).displayNameOn (m.numbering σ a) (path.map (m.numbering σ))
  have hplain : ∀ a path, ReflTransGen m.Branch id a → m.LeadsTo path a →
      name a path = m.plainName (name · (a :: path)) a := by
    intro a path ha hpath
    have hmem : m.numbering σ a ∉ path.map (m.numbering σ) := by
      rw [List.mem_map_of_injective (m.numbering σ).injective]
      exact hpath.notMem (h.reach ha)
    change (m.renumber σ).displayNameOn _ _ = _
    rw [displayNameOn_of_notMem hmem, plainName_renumber]
    rfl
  exact (displayNameOn_eq_of_plain name h hplain .refl (leadsTo_nil m id) (leadsTo_nil m id)).symm

theorem describeLocations_renumber (id : SymbolId) :
    (m.renumber σ).describeLocations (m.numbering σ id) = m.describeLocations id := by
  unfold describeLocations
  rw [symbol_renumber]
  cases m.symbol id with
  | error e => rfl
  | ok s =>
    refine List.map_congr_left fun l _ => ?_
    rw [tree_renumber]
    cases m.tree l.tree <;> rfl

/-- Messages about renumbered symbols read the same, where no circle makes a name show a number. -/
theorem attributed_renumber (h : ∀ id, m.NoCircle id) (symbol : Option SymbolId)
    (message : Message) :
    (m.renumber σ).attributed (symbol.map (m.numbering σ)) message =
      m.attributed symbol message := by
  cases symbol with
  | none => rfl
  | some id =>
    simp only [Option.map_some, attributed, displayName_renumber (h id), describeLocations_renumber]

end Model

end TrapFacts
