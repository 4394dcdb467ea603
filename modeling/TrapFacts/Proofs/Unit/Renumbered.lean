import Mathlib.Data.Fin.Rev
import TrapFacts.Proofs.Engine.Renumbering
import TrapFacts.Proofs.Model.Renumbered
import TrapFacts.TrapUnit

/-! Traps of files do not depend on how symbols are numbered, if no symbol comes back to itself. -/

namespace TrapFacts

variable {m : Model} {σ : Equiv.Perm (Fin m.symbols.length)} {scope : Scope} {x : Extractor}
  {tree : TreeId}

theorem Recipe.slot_renumber (σ : Equiv.Perm SymbolId) (recipe : Recipe) :
    (recipe.renumber σ).slot = recipe.slot.renumber σ := by
  cases recipe <;> rfl

section

variable (m σ)

namespace Model

/-- A symbol that the model does not know keeps its number, so the failure may tell it. -/
theorem symbol_found (a : SymbolId) :
    Found (m.numbering σ) (Symbol.renumber (m.numbering σ)) (m.symbol a)
      ((m.renumber σ).symbol (m.numbering σ a)) := by
  unfold symbol
  rw [getElem?_renumber]
  cases hs : m.symbols[a.index]? with
  | some s => exact .ok s
  | none =>
    have hsame : m.numbering σ a = a :=
      numbering_of_not_lt (Nat.not_lt.2 (List.getElem?_eq_none_iff.1 hs))
    rw [hsame]
    exact .error (.unknownSymbol hsame)

theorem tree_found (tree : TreeId) :
    Found (m.numbering σ) (SyntaxTree.renumber (m.numbering σ)) (m.tree tree)
      ((m.renumber σ).tree tree) := by
  rw [tree_renumber]
  unfold Model.tree
  cases m.trees[tree.index]? with
  | some t => exact .ok t
  | none => exact .error (.same rfl)

/-- Renumbered symbols are defined where the symbols are. -/
theorem defines_found (scope : Scope) (a : SymbolId) :
    Found (m.numbering σ) id (scope.defines m a)
      (scope.defines (m.renumber σ) (m.numbering σ a)) := by
  have hfound := m.symbol_found σ a
  unfold Scope.defines
  generalize m.symbol a = r at hfound
  generalize (m.renumber σ).symbol (m.numbering σ a) = r' at hfound
  cases hfound with
  | ok s =>
    have howns : scope.owns (s.renumber (m.numbering σ)) = scope.owns s := by
      cases scope <;> rfl
    simp only [Symbol.constructedFrom?_renumber, Option.isSome_map, howns]
    exact .ok _
  | error he => exact .error he

/-! What makes entities. -/

theorem typeLabel_renumbered (symbol : SymbolId) :
    (m.typeLabel symbol).Renumbered (m.numbering σ) id
      ((m.renumber σ).typeLabel (m.numbering σ symbol)) := by
  refine .read (m.symbol_found σ symbol) fun s => ?_
  rw [Symbol.kind_renumber]
  split
  · exact (Prog.Renumbered.entity (.pointer symbol)).bind fun c => .pure c.label
  · split
    · exact (Prog.Renumbered.entity (.namedType symbol)).bind fun c => .pure c.label
    · exact .fail (.internal _ (some symbol) none)

theorem typeLabel?_renumbered (symbol : Option SymbolId) :
    (m.typeLabel? symbol).Renumbered (m.numbering σ) id
      ((m.renumber σ).typeLabel? (symbol.map (m.numbering σ))) := by
  cases symbol with
  | none => exact .pure none
  | some symbol => exact (m.typeLabel_renumbered σ symbol).bind fun l => .pure (some l)

theorem spaceLabel?_renumbered (σ : Equiv.Perm SymbolId) (symbol : Option SymbolId) :
    (spaceLabel? symbol).Renumbered σ id (spaceLabel? (symbol.map σ)) := by
  cases symbol with
  | none => exact .pure none
  | some symbol => exact (Prog.Renumbered.entity (.space symbol)).bind fun c => .pure (some c.label)

theorem makeNamedType_renumbered (symbol : SymbolId) :
    (m.makeNamedType symbol).Renumbered (m.numbering σ) (Entity.renumber (m.numbering σ))
      ((m.renumber σ).makeNamedType (m.numbering σ symbol)) := by
  refine .read (m.symbol_found σ symbol) fun s => ?_
  refine (m.typeLabel?_renumbered σ s.containingType).bind fun container => ?_
  -- Which symbols are asked for depends on the labels that others have, and these are the same.
  have hspace : ∀ b : Bool, (if b then (s.renumber (m.numbering σ)).containingNamespace else none) =
      (if b then s.containingNamespace else none).map (m.numbering σ) := by
    intro b
    cases b <;> rfl
  have harguments : ∀ b : Bool, (if b then (s.renumber (m.numbering σ)).typeArguments else []) =
      (if b then s.typeArguments else []).map (m.numbering σ) := by
    intro b
    cases b <;> rfl
  simp only [id_eq, hspace, Symbol.constructedFrom?_renumber]
  refine (spaceLabel?_renumbered _ _).bind fun space => ?_
  refine (m.typeLabel?_renumbered σ (s.constructedFrom? symbol)).bind fun definition => ?_
  simp only [id_eq, harguments]
  refine (Prog.Renumbered.collect (m.typeLabel_renumbered σ) _).bind fun arguments => ?_
  exact .pure _

/-- A factory comes to the renumbered entity. -/
theorem factory_renumbered (recipe : Recipe) :
    (m.factory recipe).Renumbered (m.numbering σ) (Entity.renumber (m.numbering σ))
      ((m.renumber σ).factory (recipe.renumber (m.numbering σ))) := by
  cases recipe with
  | file path => exact .pure _
  | location place =>
    cases place with
    | none => exact (Prog.Renumbered.entity (.file "")).bind fun c => .pure _
    | some place =>
      refine .read (m.tree_found σ place.tree) fun t => ?_
      exact (Prog.Renumbered.entity (.file t.path)).bind fun c => .pure _
  | assembly name =>
    refine .assemblyFile name fun set => ?_
    exact (Prog.Renumbered.entity (.file _)).bind fun c => .pure _
  | space symbol =>
    refine .read (m.symbol_found σ symbol) fun s => ?_
    exact (spaceLabel?_renumbered _ s.containingNamespace).bind fun parent => .pure _
  | namedType symbol => exact m.makeNamedType_renumbered σ symbol
  | pointer symbol =>
    refine .read (m.symbol_found σ symbol) fun s => ?_
    cases hpointee : s.pointedAt with
    | none =>
      simp only [Symbol.renumber, hpointee, Option.map_none]
      exact .fail (.internal _ (some symbol) none)
    | some pointee =>
      simp only [Symbol.renumber, hpointee, Option.map_some]
      exact (m.typeLabel_renumbered σ pointee).bind fun l => .pure _
  | method symbol =>
    refine .read (m.symbol_found σ symbol) fun s => ?_
    cases hcontainer : s.containingType with
    | none =>
      simp only [Symbol.renumber, hcontainer, Option.map_none]
      exact .fail (.internal _ (some symbol) none)
    | some container =>
      simp only [Symbol.renumber, hcontainer, Option.map_some]
      refine (m.typeLabel_renumbered σ container).bind fun declaring => ?_
      refine (m.typeLabel?_renumbered σ s.returnType).bind fun returnType => ?_
      refine Prog.Renumbered.bind (.collect (fun p => ?_) s.parameters) fun parameters => .pure _
      exact m.typeLabel_renumbered σ p.type

end Model

/-! What traps say. -/

theorem typeArgumentFacts_renumbered (a : SymbolId) (l : Label) :
    (typeArgumentFacts m a l).Renumbered (m.numbering σ) id
      (typeArgumentFacts (m.renumber σ) (m.numbering σ a) l) := by
  refine .read (m.symbol_found σ a) fun s => ?_
  have hindexed : (s.renumber (m.numbering σ)).typeArguments.zipIdx =
      s.typeArguments.zipIdx.map (Prod.map (m.numbering σ) id) := List.zipIdx_map
  rw [Symbol.constructedFrom?_renumber, Option.isSome_map, hindexed]
  split
  · refine .openGenerics l fun new => ?_
    cases new with
    | false => exact .pure ()
    | true =>
      refine .each (fun (argument, index) => ?_) _
      exact (m.typeLabel_renumbered σ argument).bind fun l => .fact _ _
  · exact .pure ()

theorem locationFacts_renumbered (σ : Equiv.Perm SymbolId) (relation : String) (l : Label)
    (places : List Declaration) :
    (locationFacts relation l places).Renumbered σ id (locationFacts relation l places) := by
  induction places with
  | nil => exact .pure ()
  | cons place places ih =>
    refine Prog.Renumbered.bind (g := id) ?_ fun _ => ih
    exact (Prog.Renumbered.entity (.location (some place))).bind fun c => .fact _ _

theorem relatedFact_renumbered (σ : Equiv.Perm SymbolId) (relation : String) (l : Label)
    (other : Option Label) :
    (relatedFact relation l other).Renumbered σ id (relatedFact relation l other) := by
  cases other with
  | none => exact .pure ()
  | some other => exact .fact _ _

theorem extractMember_renumbered (member : SymbolId) :
    (extractMember m member).Renumbered (m.numbering σ) id
      (extractMember (m.renumber σ) (m.numbering σ member)) := by
  refine .read (m.symbol_found σ member) fun s => ?_
  rw [Symbol.kind_renumber]
  split
  · exact (m.typeLabel_renumbered σ member).bind fun _ => .pure ()
  · split
    · exact (Prog.Renumbered.entity (.method member)).bind fun _ => .pure ()
    · exact .modelError (some member) _ (.pure ())

theorem fileFacts_renumbered (scope : Scope) (path : String) (l : Label) :
    (fileFacts m scope path l).Renumbered (m.numbering σ) id
      (fileFacts (m.renumber σ) scope path l) := by
  have hfind : (m.renumber σ).trees.find? (·.path == path) =
      (m.trees.find? (·.path == path)).map (·.renumber (m.numbering σ)) := List.find?_map
  unfold fileFacts
  rw [hfind]
  refine (Prog.Renumbered.fact "files" [.label l, .text path]).bind fun _ => ?_
  split
  · cases m.trees.find? (·.path == path) with
    | none => exact .pure ()
    | some t => exact .fact _ _
  · exact .pure ()

/-- In the trap of a file, assemblies are only named. -/
theorem assemblyFacts_renumbered (hs : scope.isAssembly = false) (name : String) (file l : Label) :
    (assemblyFacts m scope name file l).Renumbered (m.numbering σ) id
      (assemblyFacts (m.renumber σ) scope name file l) := by
  cases scope with
  | assembly => cases hs
  | source => exact (Prog.Renumbered.fact _ _).bind fun _ => .pure ()

theorem spaceFacts_renumbered (σ : Equiv.Perm SymbolId) (name : String) (parent : Option Label)
    (l : Label) : (spaceFacts name parent l).Renumbered σ id (spaceFacts name parent l) := by
  refine (Prog.Renumbered.fact _ _).bind fun _ => ?_
  cases parent with
  | none => exact .pure ()
  | some parent => exact .fact _ _

theorem declaredTypeFacts_renumbered (scope : Scope) (a : SymbolId) (l : Label) :
    (declaredTypeFacts m scope a l).Renumbered (m.numbering σ) id
      (declaredTypeFacts (m.renumber σ) scope (m.numbering σ a) l) := by
  refine .read (m.defines_found σ scope a) fun defined => ?_
  rw [id_eq]
  split
  · refine .read (m.symbol_found σ a) fun s => ?_
    refine (locationFacts_renumbered _ _ _ _).bind fun _ => ?_
    refine .each (fun member => ?_) _
    exact .attempt none (some member) (extractMember_renumbered m σ member) (.pure ())
  · exact .pure ()

theorem parameterFacts_renumbered (σ : Equiv.Perm SymbolId) (parameters : List Parameter)
    (types : List Label) (l : Label) :
    (parameterFacts parameters types l).Renumbered σ id
      (parameterFacts (parameters.map (·.renumber σ)) types l) := by
  unfold parameterFacts
  rw [List.zip_map_left, List.zipIdx_map]
  refine .each (fun ((parameter, type), index) => ?_) _
  exact .fresh fun own => .fact _ _

theorem methodLocationFacts_renumbered (scope : Scope) (f : Method) (places : List Declaration)
    (l : Label) :
    (methodLocationFacts m scope f places l).Renumbered (m.numbering σ) id
      (methodLocationFacts (m.renumber σ) scope (f.renumber (m.numbering σ)) places l) := by
  refine .read (m.defines_found σ scope f.symbol) fun defined => ?_
  rw [id_eq]
  split
  · exact locationFacts_renumbered _ _ _ _
  · exact .pure ()

end

section

variable (hfree : ∀ a, m.NoCircle a)

include hfree

theorem namedTypeFacts_renumbered (scope : Scope) (t : NamedType) (l : Label) :
    (namedTypeFacts m scope t l).Renumbered (m.numbering σ) id
      (namedTypeFacts (m.renumber σ) scope (t.renumber (m.numbering σ)) l) := by
  refine (Prog.Renumbered.fact _ _).bind fun _ => ?_
  refine (relatedFact_renumbered _ "parent_namespace" l t.space).bind fun _ => ?_
  refine (relatedFact_renumbered _ "nested_types" l t.container).bind fun _ => ?_
  have hname : (m.renumber σ).displayName (t.renumber (m.numbering σ)).symbol =
      m.displayName t.symbol := Model.displayName_renumber (hfree t.symbol)
  rw [hname, show (t.renumber (m.numbering σ)).kind = t.kind from rfl,
    show (t.renumber (m.numbering σ)).definition = t.definition from rfl]
  split
  · exact .missingType _ (.pure ())
  · cases t.definition with
    | some definition =>
      refine (Prog.Renumbered.fact _ _).bind fun _ => ?_
      exact typeArgumentFacts_renumbered m σ t.symbol l
    | none => exact declaredTypeFacts_renumbered m σ scope t.symbol l

theorem pointerFacts_renumbered (a : SymbolId) (pointee l : Label) :
    (pointerFacts m a pointee l).Renumbered (m.numbering σ) id
      (pointerFacts (m.renumber σ) (m.numbering σ a) pointee l) := by
  unfold pointerFacts
  rw [Model.displayName_renumber (hfree a)]
  exact (Prog.Renumbered.fact _ _).bind fun _ => .fact _ _

theorem methodFacts_renumbered (scope : Scope) (f : Method) (l : Label) :
    (methodFacts m scope f l).Renumbered (m.numbering σ) id
      (methodFacts (m.renumber σ) scope (f.renumber (m.numbering σ)) l) := by
  refine (Prog.Renumbered.fact _ _).bind fun _ => ?_
  refine (relatedFact_renumbered _ "returns" l f.returnType).bind fun _ => ?_
  refine .read (m.symbol_found σ f.symbol) fun s => ?_
  refine (parameterFacts_renumbered _ s.parameters f.parameters l).bind fun _ => ?_
  refine (typeArgumentFacts_renumbered m σ f.declaringSymbol f.declaring).bind fun _ => ?_
  rw [show (f.renumber (m.numbering σ)).kind = f.kind from rfl]
  split
  · cases howner : s.associatedSymbol with
    | none =>
      simp only [Symbol.renumber, howner, Option.map_none]
      exact .modelError (some f.symbol) _ (.pure ())
    | some owner =>
      simp only [Symbol.renumber, howner, Option.map_some, Model.displayName_renumber (hfree owner)]
      refine (Prog.Renumbered.fact _ _).bind fun _ => ?_
      exact methodLocationFacts_renumbered m σ scope f s.locations l
  · exact methodLocationFacts_renumbered m σ scope f s.locations l

/-- Descriptions in a source unit state the same of renumbered entities. -/
theorem facts_renumbered (hs : scope.isAssembly = false) (en : Entity) (l : Label) :
    (facts m scope en l).Renumbered (m.numbering σ) id
      (facts (m.renumber σ) scope (en.renumber (m.numbering σ)) l) := by
  cases en with
  | file path => exact fileFacts_renumbered m σ scope path l
  | location f span => exact .fact _ _
  | assembly name path f => exact assemblyFacts_renumbered m σ hs name f l
  | space a name parent => exact spaceFacts_renumbered _ name parent l
  | namedType t => exact namedTypeFacts_renumbered hfree scope t l
  | pointer a pointee => exact pointerFacts_renumbered hfree a pointee l
  | method f => exact methodFacts_renumbered hfree scope f l
  | custom c => exact .pure ()

theorem World.ofModel_renumbered (hs : scope.isAssembly = false) :
    World.Renumbered (m.numbering σ) (.ofModel m scope) (.ofModel (m.renumber σ) scope) where
  scope := rfl
  attributed := Model.attributed_renumber hfree
  slot := Recipe.slot_renumber _
  factory := m.factory_renumbered σ
  body _ := facts_renumbered hfree hs

end

/-- A symbol is visited alike, whatever its number. -/
theorem visitSymbol_renumbered (m : Model) (σ : Equiv.Perm (Fin m.symbols.length)) (scope : Scope)
    (depth : Nat) (a : SymbolId) :
    (visitSymbol m scope depth a).Renumbered (m.numbering σ) id
      (visitSymbol (m.renumber σ) scope depth (m.numbering σ a)) := by
  induction depth generalizing a with
  | zero => exact .pure ()
  | succ depth ih =>
    refine .read (m.symbol_found σ a) fun s => ?_
    rw [Symbol.kind_renumber]
    split
    · refine (Prog.Renumbered.entity (.space a)).bind fun _ => ?_
      refine .each (fun member => .read (m.defines_found σ scope member) fun defined => ?_) _
      rw [id_eq]
      split
      · exact .attempt none (some member) (ih member) (.pure ())
      · exact .pure ()
    · split
      · exact (m.typeLabel_renumbered σ a).bind fun _ => .pure ()
      · split
        · exact (Prog.Renumbered.entity (.method a)).bind fun _ => .pure ()
        · exact .modelError (some a) _ (.pure ())

namespace TrapUnit

/-- A source unit does the same with a renumbered model. -/
theorem program_renumbered (m : Model) (σ : Equiv.Perm (Fin m.symbols.length)) (scope : Scope)
    (tree : TreeId) : ((source tree).program m scope).Renumbered (m.numbering σ) id
      ((source tree).program (m.renumber σ) scope) := by
  have hroot : ((source tree).root m scope).Renumbered (m.numbering σ) id
      ((source tree).root (m.renumber σ) scope) := by
    refine .read (m.tree_found σ tree) fun t => ?_
    refine (Prog.Renumbered.entity (.file t.path)).bind fun _ => ?_
    refine .each (fun member => ?_) _
    unfold extractSymbol
    rw [Model.length_renumber]
    exact .attempt none (some member) (visitSymbol_renumbered m σ scope _ member) (.pure ())
  exact hroot.bind fun _ => .drain (.pure ())

theorem scope_renumber : (source tree).scope x (m.renumber σ) = (source tree).scope x m := by
  simp only [scope, Model.tree_renumber]
  cases m.tree tree <;> rfl

theorem name_renumber : (source tree).name (m.renumber σ) = (source tree).name m := by
  simp only [name, Model.tree_renumber]
  cases m.tree tree <;> rfl

theorem isAssembly_scope (hs : (source tree).scope x m = .ok scope) :
    scope.isAssembly = false := by
  unfold TrapUnit.scope at hs
  cases ht : m.tree tree with
  | error e => simp [ht] at hs
  | ok t =>
    simp only [ht, Except.ok.injEq] at hs
    subst hs
    rfl

theorem drainBudget_renumber : (m.renumber σ).drainBudget = m.drainBudget := by
  simp [Model.drainBudget, Model.renumber]

/-- Runs that are the same but for the numbers of symbols are concluded alike. -/
theorem conclude_renumbered {σ : Equiv.Perm SymbolId} {w w' : World} (hw : w.Renumbered σ w')
    (name : String) {r r' : Reply Unit} (h : r.Renumbered σ id r') :
    (conclude w.model name r).1 = (conclude w'.model name r').1 ∧
      (conclude w.model name r).2.Renumbered σ (conclude w'.model name r').2 := by
  obtain ⟨o, cx⟩ := r
  obtain ⟨o', cx'⟩ := r'
  obtain ⟨ho, hcx⟩ := h
  cases ho with
  | done | exhausted => exact ⟨rfl, hcx⟩
  | @failed e e' he =>
    have hmessage : w'.model.failureMessage e' none none = w.model.failureMessage e none none :=
      hw.failureMessage he none none
    cases hfatal : e.isFatal with
    | true =>
      simp only [conclude, he.isFatal, he.message, hfatal, if_true]
      exact ⟨trivial, hcx.send _ _⟩
    | false =>
      simp only [conclude, he.isFatal, hmessage, hfatal]
      exact ⟨rfl, hcx.send _ _⟩

theorem finish_renumbered (x : Extractor) (m : Model) (σ : Equiv.Perm (Fin m.symbols.length))
    (hfree : ∀ a, m.NoCircle a) (hs : scope.isAssembly = false) (tree : TreeId) (budget : Nat) :
    ((source tree).finish m scope x budget).1 =
        ((source tree).finish (m.renumber σ) scope x budget).1 ∧
      ((source tree).finish m scope x budget).2.Renumbered (m.numbering σ)
        ((source tree).finish (m.renumber σ) scope x budget).2 := by
  have hw : World.Renumbered (m.numbering σ) (.ofModel m scope) (.ofModel (m.renumber σ) scope) :=
    World.ofModel_renumbered hfree hs
  have hrun : ((source tree).runIn m scope x budget).Renumbered (m.numbering σ) id
      ((source tree).runIn (m.renumber σ) scope x budget) :=
    World.run_renumbered hw budget (program_renumbered m σ scope tree) (.fresh x)
  unfold finish
  rw [name_renumber]
  exact conclude_renumbered hw _ hrun

/-- The trap of a file, the status, the counts, the diagnostics and the missing types do not depend
on how the symbols are numbered, if no symbol comes back to itself through the symbols that its name
is made of: its container or namespace, its pointee and its type arguments. -/
theorem extract_renumber (x : Extractor) (m : Model) (σ : Equiv.Perm (Fin m.symbols.length))
    (hfree : ∀ a, m.NoCircle a) (tree : TreeId) :
    (source tree).extract x (m.renumber σ) = (source tree).extract x m := by
  unfold extract
  rw [scope_renumber, name_renumber, drainBudget_renumber]
  cases hs : (source tree).scope x m with
  | error e => rfl
  | ok scope =>
    obtain ⟨hstatus, hcx⟩ :=
      finish_renumbered x m σ hfree (isAssembly_scope hs) tree m.drainBudget
    have hstats := hcx.agree Context.stats fun _ => rfl
    have hextractor := hcx.agree Context.extractor fun _ => rfl
    simp only [hstatus, hcx.trap, hcx.queue.length_eq, hstats, hextractor]

/-- A namespace with an unknown member and a class, which has a method that takes a pointer to it;
and the same with the table upside down. -/
theorem extract_renumber_reversed :
    let m : Model := {
      trees := [{ path := "a.cs", members := [⟨0⟩] }]
      symbols := [
        { name := "N", kind := .space, members := [⟨1⟩, ⟨9⟩] },
        { name := "C", kind := .classType, containingNamespace := some ⟨0⟩, members := [⟨3⟩]
          locations := [⟨⟨0⟩, ⟨1, 1, 1, 9⟩⟩] },
        { name := "", kind := .pointer, pointedAt := some ⟨1⟩ },
        { name := "f", kind := .method, containingType := some ⟨1⟩,
          parameters := [{ name := "p", type := ⟨2⟩ }] }] }
    let reversed : Model := {
      trees := [{ path := "a.cs", members := [⟨3⟩] }]
      symbols := [
        { name := "f", kind := .method, containingType := some ⟨2⟩,
          parameters := [{ name := "p", type := ⟨1⟩ }] },
        { name := "", kind := .pointer, pointedAt := some ⟨2⟩ },
        { name := "C", kind := .classType, containingNamespace := some ⟨3⟩, members := [⟨0⟩]
          locations := [⟨⟨0⟩, ⟨1, 1, 1, 9⟩⟩] },
        { name := "N", kind := .space, members := [⟨2⟩, ⟨9⟩] }] }
    m.renumber Fin.revPerm = reversed ∧ (∀ a, m.NoCircle a) ∧
      (source ⟨0⟩).extract {} reversed = (source ⟨0⟩).extract {} m := by
  intro m reversed
  have hreversed : m.renumber Fin.revPerm = reversed := by decide
  have hfree : ∀ a, m.NoCircle a := by
    intro a
    apply Model.noCircle_of_rank (fun _ => True) SymbolId.index trivial
    rintro ⟨i⟩ s - hs
    rcases i with _ | _ | _ | _ | i <;> cases hs <;> decide
  refine ⟨hreversed, hfree, ?_⟩
  rw [← hreversed]
  exact extract_renumber {} m Fin.revPerm hfree ⟨0⟩

section

-- Evaluation compares keys by their literals, not byte by byte.
attribute [local irreducible] String.decEq

/-- A type that is its own argument is told by its number. -/
example :
    let m : Model := {
      trees := [{ path := "a.cs", members := [⟨1⟩] }]
      symbols := [
        { name := "N", kind := .space },
        { name := "E", kind := .error, typeArguments := [⟨1⟩] }] }
    ((source ⟨0⟩).extract {} m).toOption.map (·.2.missingTypes) = some ["E<symbol 1>"] := by
  cbv

end

end TrapUnit

end TrapFacts
