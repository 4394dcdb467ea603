import TrapFacts.Model.Basic

/-!
Display names. A symbol that comes back to itself is shown by its number where the circle closes.
-/

namespace TrapFacts.Model

/-- The symbols of the table that are not on the path. -/
def offPath (m : Model) (path : List SymbolId) : List SymbolId :=
  ((List.range m.symbols.length).map SymbolId.mk).filter (· ∉ path)

theorem offPath_cons_lt {m : Model} {path : List SymbolId} {id : SymbolId} (hmem : id ∉ path)
    (hin : id.index < m.symbols.length) :
    (m.offPath (id :: path)).length < (m.offPath path).length := by
  have hsub : m.offPath (id :: path) = (m.offPath path).filter (· ≠ id) := by
    simp only [offPath, List.filter_filter]
    exact List.filter_congr fun i _ => by simp [not_or]
  rw [hsub]
  apply List.length_filter_lt_length_iff_exists.2
  exact ⟨id, by simpa [offPath, hmem] using ⟨id.index, hin, rfl⟩, by simp⟩

/-- Container or namespace in front, a star behind a pointee, type arguments in angle brackets.
The global namespace is left out. -/
def displayNameOn (m : Model) (id : SymbolId) (path : List SymbolId) : String :=
  if hmem : id ∈ path then id.text
  else if hin : id.index < m.symbols.length then
    let s := m.symbols[id.index]
    let qualified :=
      match s.containingType, s.containingNamespace with
      | some parent, _ => m.displayNameOn parent (id :: path) ++ "." ++ s.name
      | none, some ns =>
        if (m.symbols[ns.index]?.map Symbol.isGlobalNamespace).getD false then s.name
        else m.displayNameOn ns (id :: path) ++ "." ++ s.name
      | none, none => s.name
    let shape :=
      match s.kind, s.pointedAt with
      | .pointer, some pointee => m.displayNameOn pointee (id :: path) ++ "*"
      | _, _ => qualified
    if s.typeArguments.isEmpty then shape
    else
      shape ++ "<" ++ ", ".intercalate
        (s.typeArguments.map fun a => m.displayNameOn a (id :: path)) ++ ">"
  else id.text
termination_by (m.offPath path).length
decreasing_by all_goals exact offPath_cons_lt hmem hin

/-- The fully qualified name of a symbol. -/
def displayName (m : Model) (id : SymbolId) : String :=
  m.displayNameOn id []

end TrapFacts.Model
