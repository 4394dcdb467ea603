import TrapFacts.Proofs.Unit.Independent
import TrapFacts.Proofs.Unit.Reference

/-! Members that the model does not know make no difference to a trap, unless they stand before
others in a namespace. -/

namespace TrapFacts

open Context (Twins)

variable {m : Model} {scope : Scope} {x x' : Extractor} {unit : TrapUnit} {keep : SymbolId → Bool}
  {free last : Bool} {id : SymbolId}

theorem Prog.ofExcept_map {α β γ : Type} (r : Except Failure α) (g : α → β) (f : β → Prog γ) :
    Prog.ofExcept (r.map g) >>= f = Prog.ofExcept r >>= fun a => f (g a) := by
  cases r <;> rfl

def Symbol.keeping (s : Symbol) (keep : SymbolId → Bool) : Symbol :=
  { s with members := s.members.filter keep }

def SyntaxTree.keeping (t : SyntaxTree) (keep : SymbolId → Bool) : SyntaxTree :=
  { t with members := t.members.filter keep }

namespace Model

/-- The model in which those members alone are listed that are kept. -/
def keeping (m : Model) (keep : SymbolId → Bool) : Model :=
  { m with
    trees := m.trees.map (·.keeping keep)
    symbols := m.symbols.map (·.keeping keep) }

def knows (m : Model) (id : SymbolId) : Bool :=
  id.index < m.symbols.length

/-- The model without the members that it does not know. -/
def pruned (m : Model) : Model :=
  m.keeping m.knows

/-- In namespaces, nothing that the unit defines stands behind a member that the model does not
know. -/
def UnknownLast (m : Model) (scope : Scope) : Prop :=
  ∀ s ∈ m.symbols, s.kind = .space → s.members.Pairwise fun a b =>
    m.knows a = false → scope.defines m b ≠ .ok true

instance : Decidable (m.UnknownLast scope) :=
  inferInstanceAs (Decidable (∀ s ∈ m.symbols, s.kind = .space → s.members.Pairwise fun a b =>
    m.knows a = false → scope.defines m b ≠ .ok true))

theorem getElem?_keeping (i : Nat) :
    (m.keeping keep).symbols[i]? = m.symbols[i]?.map (·.keeping keep) :=
  List.getElem?_map

theorem length_keeping : (m.keeping keep).symbols.length = m.symbols.length :=
  List.length_map _

theorem symbol_keeping : (m.keeping keep).symbol id = (m.symbol id).map (·.keeping keep) := by
  unfold symbol
  rw [getElem?_keeping]
  cases m.symbols[id.index]? <;> rfl

theorem tree_keeping {tree : TreeId} :
    (m.keeping keep).tree tree = (m.tree tree).map (·.keeping keep) := by
  unfold Model.tree
  rw [show (m.keeping keep).trees[tree.index]? = m.trees[tree.index]?.map (·.keeping keep) from
    List.getElem?_map]
  cases m.trees[tree.index]? <;> rfl

theorem assemblySymbols_keeping (name : String) :
    (m.keeping keep).assemblySymbols name = m.assemblySymbols name := by
  have hassembly : ∀ i : Nat, (m.keeping keep).symbols[i]?.bind (·.containingAssembly) =
      m.symbols[i]?.bind (·.containingAssembly) := fun i => by
    rw [getElem?_keeping]
    cases m.symbols[i]? <;> rfl
  simp only [assemblySymbols, length_keeping, hassembly]

theorem defines_keeping : scope.defines (m.keeping keep) id = scope.defines m id := by
  unfold Scope.defines
  rw [symbol_keeping]
  cases m.symbol id with
  | error e => rfl
  | ok s => cases scope <;> rfl

theorem displayNameOn_keeping (id : SymbolId) (path : List SymbolId) :
    (m.keeping keep).displayNameOn id path = m.displayNameOn id path := by
  induction id, path using displayNameOn.induct m with
  | case1 id path hmem =>
    unfold displayNameOn
    rw [dif_pos hmem, dif_pos hmem]
  | case2 id path hmem hin s hargs ih | case3 id path hmem hin s hargs ih =>
    have hin' : id.index < (m.keeping keep).symbols.length := by rwa [length_keeping]
    have hs : (m.keeping keep).symbols[id.index] = s.keeping keep := by simp [Model.keeping, s]
    have hglobal : ∀ ns : SymbolId,
        (m.keeping keep).symbols[ns.index]?.map Symbol.isGlobalNamespace =
          m.symbols[ns.index]?.map Symbol.isGlobalNamespace := fun ns => by
      rw [getElem?_keeping, Option.map_map]
      rfl
    unfold displayNameOn
    rw [dif_neg hmem, dif_neg hmem, dif_pos hin, dif_pos hin']
    simp only [hs, hglobal, ih]
    rfl
  | case4 id path hmem hout =>
    have hout' : ¬ id.index < (m.keeping keep).symbols.length := by rwa [length_keeping]
    unfold displayNameOn
    rw [dif_neg hmem, dif_neg hmem, dif_neg hout, dif_neg hout']

/-- Members that are dropped change no names. -/
theorem displayName_keeping : (m.keeping keep).displayName id = m.displayName id :=
  displayNameOn_keeping id []

theorem describeLocations_keeping :
    (m.keeping keep).describeLocations id = m.describeLocations id := by
  unfold describeLocations
  rw [symbol_keeping]
  cases m.symbol id with
  | error e => rfl
  | ok s =>
    refine List.map_congr_left fun l _ => ?_
    rw [tree_keeping]
    cases m.tree l.tree <;> rfl

theorem attributed_keeping : (m.keeping keep).attributed = m.attributed := by
  funext symbol message
  cases symbol with
  | none => rfl
  | some id => simp only [attributed, displayName_keeping, describeLocations_keeping]

theorem typeLabel_keeping : (m.keeping keep).typeLabel = m.typeLabel := by
  funext id
  unfold typeLabel
  rw [symbol_keeping]
  cases m.symbol id <;> rfl

theorem typeLabel?_keeping : (m.keeping keep).typeLabel? = m.typeLabel? := by
  funext id
  unfold typeLabel?
  rw [typeLabel_keeping]

/-- Members that are dropped change no factories. -/
theorem factory_keeping : (m.keeping keep).factory = m.factory := by
  funext recipe
  cases recipe with
  | file | assembly => rfl
  | location place =>
    cases place with
    | none => rfl
    | some place =>
      simp only [factory, makeLocation, tree_keeping]
      cases m.tree place.tree <;> rfl
  | space id =>
    simp only [factory, makeSpace, symbol_keeping]
    cases m.symbol id <;> rfl
  | namedType id =>
    simp only [factory, makeNamedType, symbol_keeping, typeLabel_keeping, typeLabel?_keeping]
    cases m.symbol id <;> rfl
  | pointer id =>
    simp only [factory, makePointer, symbol_keeping, typeLabel_keeping]
    cases m.symbol id <;> rfl
  | method id =>
    simp only [factory, makeMethod, symbol_keeping, typeLabel_keeping, typeLabel?_keeping]
    cases m.symbol id <;> rfl

theorem symbol_eq_error (h : m.knows id = false) : m.symbol id = .error (.unknownSymbol id) := by
  have hout : m.symbols.length ≤ id.index := by simpa [knows] using h
  unfold symbol
  rw [List.getElem?_eq_none hout]

theorem defines_eq_error (h : m.knows id = false) :
    scope.defines m id = .error (.unknownSymbol id) := by
  unfold Scope.defines
  rw [symbol_eq_error h]

/-- Whether a known symbol is defined here can be told. -/
theorem defines_of_knows (scope : Scope) (h : m.knows id = true) :
    ∃ defined, scope.defines m id = .ok defined := by
  have hin : id.index < m.symbols.length := by simpa [knows] using h
  unfold Scope.defines symbol
  rw [List.getElem?_eq_getElem hin]
  exact ⟨_, rfl⟩

theorem mem_of_symbol {s : Symbol} (h : m.symbol id = .ok s) : s ∈ m.symbols := by
  obtain ⟨hin, rfl⟩ := index_of_symbol h
  exact List.getElem_mem hin

end Model

/-! Descriptions depend on members only where they list them. -/

theorem typeArgumentFacts_keeping : typeArgumentFacts (m.keeping keep) = typeArgumentFacts m := by
  funext id l
  unfold typeArgumentFacts
  rw [Model.symbol_keeping, Model.typeLabel_keeping]
  cases m.symbol id <;> rfl

theorem extractMember_keeping : extractMember (m.keeping keep) = extractMember m := by
  funext id
  unfold extractMember
  rw [Model.symbol_keeping, Model.typeLabel_keeping]
  cases m.symbol id <;> rfl

theorem pointerFacts_keeping : pointerFacts (m.keeping keep) = pointerFacts m := by
  funext id pointee l
  simp only [pointerFacts, Model.displayName_keeping]

theorem methodFacts_keeping : methodFacts (m.keeping keep) scope = methodFacts m scope := by
  funext f l
  simp only [methodFacts, methodLocationFacts, Model.symbol_keeping, typeArgumentFacts_keeping,
    Model.displayName_keeping, Model.defines_keeping]
  cases m.symbol f.symbol <;> rfl

theorem fileFacts_keeping : fileFacts (m.keeping keep) scope = fileFacts m scope := by
  funext path l
  have hfind : (m.keeping keep).trees.find? (·.path == path) =
      (m.trees.find? (·.path == path)).map (·.keeping keep) := List.find?_map
  unfold fileFacts
  rw [hfind]
  cases m.trees.find? (·.path == path) <;> rfl

theorem assemblyFacts_keeping : assemblyFacts (m.keeping keep) scope = assemblyFacts m scope := by
  funext name f l
  simp only [assemblyFacts, Model.assemblySymbols_keeping, Model.symbol_keeping, Prog.ofExcept_map,
    Model.typeLabel_keeping]
  rfl

/-- A member that the model does not know is reported, and no more. -/
theorem extractMember_unknown (hfree : free = true) (h : m.knows id = false) :
    Prog.Echoes free last (.attempt none (some id) (extractMember m id) (.pure ())) (.pure ()) := by
  have hfail : extractMember m id = .fail (.unknownSymbol id) := by
    unfold extractMember
    rw [Model.symbol_eq_error h]
    rfl
  rw [hfail]
  exact .futile _ _ hfree rfl (.pure ())

theorem declaredTypeFacts_echoes (hfree : free = true) (id : SymbolId) (l : Label) :
    (declaredTypeFacts m scope id l).Echoes free last (declaredTypeFacts m.pruned scope id l) := by
  unfold declaredTypeFacts
  rw [Model.pruned, Model.defines_keeping, Model.symbol_keeping, Prog.ofExcept_map]
  refine .read fun defined _ => ?_
  split
  · refine .read fun s _ => ?_
    refine (locationFacts_discreet _ _ _).echoes.bind fun _ => ?_
    refine .each_filter (fun member _ _ => ?_) fun member _ h => extractMember_unknown hfree h
    rw [extractMember_keeping]
    exact .attempt _ _ (extractMember_discreet member).echoes (.pure ())
  · exact .pure ()

theorem namedTypeFacts_echoes (hfree : free = true) (t : NamedType) (l : Label) :
    (namedTypeFacts m scope t l).Echoes free last (namedTypeFacts m.pruned scope t l) := by
  unfold namedTypeFacts
  rw [Model.pruned, Model.displayName_keeping, typeArgumentFacts_keeping]
  refine .emit _ ((relatedFact_discreet "parent_namespace" l t.space).echoes.bind fun _ => ?_)
  refine (relatedFact_discreet "nested_types" l t.container).echoes.bind fun _ => ?_
  split
  · exact .missingType _ (.pure ())
  · split
    · exact .emit _ (typeArgumentFacts_discreet _ _).echoes
    · exact declaredTypeFacts_echoes hfree _ l

/-- Descriptions go alike in the pruned model, but for reports. -/
theorem facts_echoes (hfree : free = true) (en : Entity) (l : Label) :
    (facts m scope en l).Echoes free true (facts m.pruned scope en l) := by
  have hsame (h : facts m.pruned scope en l = facts m scope en l) :
      (facts m scope en l).Echoes free true (facts m.pruned scope en l) :=
    h.symm ▸ (facts_discreet en l).echoes
  cases en with
  | namedType t => exact namedTypeFacts_echoes hfree t l
  | file path => exact hsame (congrFun₂ fileFacts_keeping path l)
  | assembly name path f => exact hsame (congrFun (congrFun₂ assemblyFacts_keeping name f) l)
  | pointer id pointee => exact hsame (congrFun (congrFun₂ pointerFacts_keeping id pointee) l)
  | method f => exact hsame (congrFun₂ methodFacts_keeping f l)
  | location | space | custom => exact hsame rfl

theorem World.ofModel_echoes (m : Model) (scope : Scope) :
    (World.ofModel m scope).Echoes true (.ofModel m.pruned scope) where
  scope := rfl
  attributed := Model.attributed_keeping.symm
  slot _ := rfl
  factory recipe := by
    rw [show ((ofModel m.pruned scope).catalog recipe).factory = m.factory recipe from
      congrFun Model.factory_keeping recipe]
    exact (Model.factory_discreet recipe).echoes
  body _ en l := facts_echoes rfl en l

/-- Members that the model does not know end the visit of a namespace, and nobody misses what the
unit does not define. -/
theorem visitSymbol_echoes (hunknown : m.UnknownLast scope) (depth : Nat) (id : SymbolId) :
    (visitSymbol m scope depth id).Echoes true true (visitSymbol m.pruned scope depth id) := by
  induction depth generalizing id with
  | zero => exact .pure ()
  | succ depth ih =>
    unfold visitSymbol
    simp only [Model.pruned, Model.symbol_keeping, Prog.ofExcept_map, Model.defines_keeping,
      Model.typeLabel_keeping]
    refine .read fun s hs => ?_
    by_cases hspace : s.kind = .space
    · rw [if_pos hspace, if_pos (show (s.keeping _).kind = .space from hspace)]
      refine .summon _ fun _ => ?_
      refine .each_failing rfl (fun member _ _ => ?_) (fun member _ hmissing => ?_) ?_
      · refine .read fun defined _ => ?_
        split
        · exact .attempt _ _ (ih member) (.pure ())
        · exact .pure ()
      · refine ⟨.unknownSymbol member, ?_, rfl⟩
        rw [Model.defines_eq_error hmissing]
        rfl
      · refine (hunknown s (Model.mem_of_symbol hs) hspace).imp fun hrest ha hb => ?_
        obtain ⟨defined, hdefined⟩ := Model.defines_of_knows scope hb
        cases defined with
        | true => exact absurd hdefined (hrest ha)
        | false =>
          rw [hdefined]
          rfl
    · rw [if_neg hspace, if_neg (show ¬ (s.keeping _).kind = .space from hspace)]
      refine Prog.Discreet.echoes ?_
      split
      · exact (Model.typeLabel_discreet id).bind fun _ => trivial
      · split
        · exact fun _ => trivial
        · exact ⟨rfl, trivial⟩

namespace TrapUnit

/-- The program of a unit goes alike in the pruned model, if what is unknown comes last. -/
theorem root_echoes (unit : TrapUnit)
    (hunknown : ∀ tree, unit = source tree → m.UnknownLast scope) :
    (unit.root m scope).Echoes true false (unit.root m.pruned scope) := by
  cases unit with
  | source tree =>
    simp only [root, Model.pruned, Model.tree_keeping, Prog.ofExcept_map]
    refine .read fun t _ => ?_
    refine .summon _ fun _ => ?_
    refine .each_filter (fun member _ _ => ?_) fun member _ hmissing => ?_
    · simp only [extractSymbol, Model.length_keeping]
      exact .attempt _ _ (visitSymbol_echoes (hunknown tree rfl) _ member) (.pure ())
    · have hfail : extractSymbol m scope member = .fail (.unknownSymbol member) := by
        unfold extractSymbol visitSymbol
        rw [Model.symbol_eq_error hmissing]
        rfl
      rw [hfail]
      exact .futile _ _ rfl rfl (.pure ())
  | assembly name => exact (Prog.Discreet.entity _).echoes.bind fun _ => .pure ()
  | compilation =>
    have hsame : extractCompilation m.pruned = extractCompilation m := by
      have hpaths : m.pruned.trees.map (·.path) = m.trees.map (·.path) := List.map_map
      simp only [extractCompilation, hpaths]
      rfl
    simp only [root, hsame]
    exact extractCompilation_discreet.echoes.bind fun _ => .pure ()

theorem program_echoes (unit : TrapUnit)
    (hunknown : ∀ tree, unit = source tree → m.UnknownLast scope) :
    (unit.program m scope).Echoes true false (unit.program m.pruned scope) :=
  (root_echoes unit hunknown).bind fun _ => .drain (.pure ())

theorem scope_keeping (unit : TrapUnit) : unit.scope x (m.keeping keep) = unit.scope x m := by
  cases unit with
  | source tree =>
    simp only [scope, Model.tree_keeping]
    cases m.tree tree <;> rfl
  | assembly | compilation => rfl

theorem name_keeping (unit : TrapUnit) : unit.name (m.keeping keep) = unit.name m := by
  cases unit with
  | source tree =>
    simp only [name, Model.tree_keeping]
    cases m.tree tree <;> rfl
  | assembly | compilation => rfl

theorem drainBudget_keeping : (m.keeping keep).drainBudget = m.drainBudget := by
  simp [Model.drainBudget, Model.keeping]

/-- Of a file's namespaces, in the scope of the file. -/
theorem unknownLast_of_scope
    (hunknown : ∀ tree t, unit = source tree → m.tree tree = .ok t →
      m.UnknownLast (.source tree t.path)) (hs : unit.scope x m = .ok scope) :
    ∀ tree, unit = source tree → m.UnknownLast scope := by
  rintro tree rfl
  unfold TrapUnit.scope at hs
  cases ht : m.tree tree with
  | error e => simp [ht] at hs
  | ok t =>
    simp only [ht] at hs
    obtain rfl := Except.ok.inj hs
    exact hunknown tree t rfl ht

/-- Extractors that do not warn on the same occasions cannot tell whether members are missing. -/
theorem finish_pruned (unit : TrapUnit) (budget : Nat)
    (hunknown : ∀ tree, unit = source tree → m.UnknownLast scope)
    (hd : x.config.maxRecursionDepth = x'.config.maxRecursionDepth)
    (hf : x.assemblyFile? = x'.assemblyFile?)
    (hc : x.config.checkLabelCollisions ≠ x'.config.checkLabelCollisions) :
    (unit.finish m scope x budget).1 = (unit.finish m.pruned scope x' budget).1 ∧
      Twins true (unit.finish m scope x budget).2 (unit.finish m.pruned scope x' budget).2 := by
  have hnear : Near true false (unit.runIn m scope x budget)
      (unit.runIn m.pruned scope x' budget) :=
    World.run_near (World.ofModel_echoes m scope) budget (unit.program_echoes hunknown)
      (.fresh hd hf fun ha => absurd ha.2 hc)
  have hname : unit.name m.pruned = unit.name m := unit.name_keeping
  unfold finish
  rw [hname]
  exact conclude_twins Model.attributed_keeping.symm _ hnear

/-- Members that the model does not know make no difference to what comes out of a unit, unless the
unit is a file and such a member stands in a namespace before one that the file defines. -/
theorem extract_pruned
    (hunknown : ∀ tree t, unit = source tree → m.tree tree = .ok t →
      m.UnknownLast (.source tree t.path)) :
    unit.result x m.pruned m.pruned.drainBudget = unit.result x m m.drainBudget := by
  -- What is said is another matter: it is not even compared, as only one of both warns.
  let x' : Extractor :=
    { x with
      config := { x.config with checkLabelCollisions := !x.config.checkLabelCollisions } }
  have hbudget : m.pruned.drainBudget = m.drainBudget := drainBudget_keeping
  have hscope : unit.scope x m = unit.scope x' m.pruned := unit.scope_keeping.symm
  have hname : unit.name m = unit.name m.pruned := unit.name_keeping.symm
  have hdiffer : x.config.checkLabelCollisions ≠ x'.config.checkLabelCollisions := by simp [x']
  calc unit.result x m.pruned m.pruned.drainBudget
    _ = unit.result x' m.pruned m.drainBudget := by
      rw [hbudget]
      exact unit.result_congr _ _ rfl rfl
    _ = unit.result x m m.drainBudget :=
      (result_eq_of_twins hscope hname fun scope hs => unit.finish_pruned m.drainBudget
        (unknownLast_of_scope hunknown hs) rfl rfl hdiffer).symm

section

-- Evaluation compares keys by their literals, not byte by byte.
attribute [local irreducible] String.decEq

/-- A file, a class and a namespace with unknown members; behind the one of the namespace stands a
class of another file. -/
theorem extract_pruned_unknown :
    let m : Model := {
      trees := [{ path := "a.cs", members := [⟨7⟩, ⟨0⟩] }, { path := "b.cs" }]
      symbols := [
        { name := "N", kind := .space, members := [⟨1⟩, ⟨9⟩, ⟨2⟩] },
        { name := "C", kind := .classType, containingNamespace := some ⟨0⟩,
          locations := [⟨⟨0⟩, ⟨1, 1, 1, 9⟩⟩], members := [⟨8⟩, ⟨3⟩] },
        { name := "D", kind := .classType, containingNamespace := some ⟨0⟩,
          locations := [⟨⟨1⟩, ⟨1, 1, 1, 9⟩⟩] },
        { name := "f", kind := .method, containingType := some ⟨1⟩ }] }
    (∀ tree t, source ⟨0⟩ = source tree → m.tree tree = .ok t →
        m.UnknownLast (.source tree t.path)) ∧
      (source ⟨0⟩).result {} m.pruned m.pruned.drainBudget =
        (source ⟨0⟩).result {} m m.drainBudget := by
  intro m
  have hunknown : ∀ tree t, source ⟨0⟩ = source tree → m.tree tree = .ok t →
      m.UnknownLast (.source tree t.path) := by
    rintro tree t ⟨⟩ ⟨⟩
    decide
  exact ⟨hunknown, extract_pruned hunknown⟩

/-- A class that stands behind an unknown member of its namespace is lost. -/
theorem extract_lost :
    let m : Model := {
      trees := [{ path := "a.cs", members := [⟨0⟩] }]
      symbols := [
        { name := "N", kind := .space, members := [⟨9⟩, ⟨1⟩] },
        { name := "C", kind := .classType, containingNamespace := some ⟨0⟩,
          locations := [⟨⟨0⟩, ⟨1, 1, 1, 9⟩⟩] }] }
    (source ⟨0⟩).result {} m.pruned m.pruned.drainBudget ≠
      (source ⟨0⟩).result {} m m.drainBudget := by
  intro m hsame
  let scope : Scope := .source ⟨0⟩ "a.cs"
  let x : Extractor := { config := { checkLabelCollisions := true } }
  -- All that is left of the unit.
  let p : Prog Unit :=
    .summon (.file "a.cs") fun _ =>
      .attempt none (some ⟨0⟩) (.summon (.space ⟨0⟩) fun _ => .pure ()) (.drain (.pure ()))
  have hprogram : ((source ⟨0⟩).program m scope).Echoes true false p :=
    .summon _ fun _ =>
      .attempt _ _ (.summon _ fun _ => .failed () rfl rfl) (.drain (.pure ()))
  have hfresh : Twins true { extractor := {} } { extractor := x } :=
    .fresh rfl rfl fun ha => by cases ha.2
  have hnear := World.run_near (World.ofModel_echoes m scope) m.drainBudget hprogram hfresh
  have hattributed : m.attributed = m.pruned.attributed := Model.attributed_keeping.symm
  obtain ⟨-, hleft⟩ := conclude_twins hattributed "a.cs" hnear
  have hpopulated : ((source ⟨0⟩).finish m scope {} m.drainBudget).2.populated = 2 :=
    (hleft.agree Context.populated fun _ => rfl).trans (by cbv)
  have hpruned : ((source ⟨0⟩).finish m.pruned scope {} m.pruned.drainBudget).2.populated = 4 := by
    cbv
  have hstats : ((source ⟨0⟩).finish m.pruned scope {} m.pruned.drainBudget).2.stats =
      ((source ⟨0⟩).finish m scope {} m.drainBudget).2.stats :=
    congrArg Extraction.stats (Except.ok.inj hsame)
  have hcount := congrArg Stats.populated hstats
  simp only [Context.stats, hpopulated, hpruned] at hcount
  cases hcount

end

end TrapUnit

end TrapFacts
