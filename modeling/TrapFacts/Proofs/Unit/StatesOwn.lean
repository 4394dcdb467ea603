import TrapFacts.Proofs.Engine.RunnerShows
import TrapFacts.TrapUnit

/-! In a unit, each description states facts about its own label alone, and nothing else states
any about a label that an entity has. -/

namespace TrapFacts

variable {m : Model} {scope : Scope} {mine : Label → Prop} {l : Label}

/-- A fact of which the label stands first. -/
theorem Prog.StatesOnly.fact {relation : String} {args : List Value} (hl : mine l)
    (hr : relation ≠ "params") : (Prog.fact relation (.label l :: args)).StatesOnly mine := by
  refine ⟨fun l' hc => ?_, trivial⟩
  obtain ⟨-, hfirst | ⟨hparams, -⟩⟩ := hc
  · cases hfirst
    exact hl
  · exact absurd hparams hr

namespace Model

theorem typeLabel_factless (id : SymbolId) : (m.typeLabel id).Factless := by
  refine Prog.StatesOnly.read fun s _ => ?_
  split
  · exact fun _ => trivial
  · split
    · exact fun _ => trivial
    · trivial

theorem typeLabel?_factless (id : Option SymbolId) : (m.typeLabel? id).Factless := by
  cases id with
  | none => trivial
  | some id => exact (typeLabel_factless id).bind fun _ => trivial

theorem spaceLabel?_factless (id : Option SymbolId) : (spaceLabel? id).Factless := by
  cases id with
  | none => trivial
  | some id => exact fun _ => trivial

/-- No factory states a fact. -/
theorem factory_factless (recipe : Recipe) : (m.factory recipe).Factless := by
  cases recipe with
  | file path => trivial
  | location place =>
    cases place with
    | none => exact fun _ => trivial
    | some place => exact Prog.StatesOnly.read fun tree _ _ => trivial
  | assembly name => exact fun _ _ => trivial
  | space id =>
    refine Prog.StatesOnly.read fun s _ => ?_
    exact (spaceLabel?_factless _).bind fun _ => trivial
  | namedType id =>
    refine Prog.StatesOnly.read fun s _ => ?_
    refine (typeLabel?_factless _).bind fun container => ?_
    refine (spaceLabel?_factless _).bind fun space => ?_
    refine (typeLabel?_factless _).bind fun definition => ?_
    exact (Prog.StatesOnly.collect fun a _ => typeLabel_factless a).bind fun _ => trivial
  | pointer id =>
    refine Prog.StatesOnly.read fun s _ => ?_
    split
    · trivial
    · exact (typeLabel_factless _).bind fun _ => trivial
  | method id =>
    refine Prog.StatesOnly.read fun s _ => ?_
    split
    · trivial
    · refine (typeLabel_factless _).bind fun declaring => ?_
      refine (typeLabel?_factless _).bind fun returnType => ?_
      exact (Prog.StatesOnly.collect fun p _ => typeLabel_factless p.type).bind fun _ => trivial

end Model

theorem typeArgumentFacts_factless (id : SymbolId) (l : Label) :
    (typeArgumentFacts m id l).Factless := by
  refine Prog.StatesOnly.read fun s _ => ?_
  split
  · intro new
    cases new with
    | false => trivial
    | true =>
      refine Prog.StatesOnly.each fun _ _ => (Model.typeLabel_factless _).bind fun _ => ?_
      exact ⟨fun _ hc => hc.1 rfl, trivial⟩
  · trivial

theorem extractMember_factless (member : SymbolId) : (extractMember m member).Factless := by
  refine Prog.StatesOnly.read fun s _ => ?_
  split
  · exact (Model.typeLabel_factless _).bind fun _ => trivial
  · split
    · exact fun _ => trivial
    · trivial

theorem membersFacts_factless (members : List SymbolId) :
    (Prog.each members fun member =>
      .attempt none (some member) (extractMember m member) (.pure ())).Factless :=
  .each fun member _ => ⟨extractMember_factless member, trivial⟩

theorem locationFacts_statesOnly {relation : String} (hr : relation ≠ "params") (l : Label)
    (places : List Declaration) : (locationFacts relation l places).StatesOnly (· = l) :=
  .each fun _ _ _ => .fact rfl hr

theorem relatedFact_statesOnly {relation : String} (hr : relation ≠ "params") (l : Label)
    (other : Option Label) : (relatedFact relation l other).StatesOnly (· = l) := by
  cases other with
  | none => trivial
  | some other => exact .fact rfl hr

/-- A parameter's fact is about a label of its own, and about the method that it is one of. -/
theorem parameterFacts_statesOnly (parameters : List Parameter) (types : List Label) (l : Label) :
    (parameterFacts parameters types l).StatesOnly (· = l) := by
  refine .each fun _ _ own => ⟨fun l' hc => ?_, trivial⟩
  obtain ⟨-, hfirst | ⟨-, hlast⟩⟩ := hc
  · cases hfirst
    exact .inl rfl
  · cases hlast
    exact .inr rfl

theorem declaredTypeFacts_statesOnly (id : SymbolId) (l : Label) :
    (declaredTypeFacts m scope id l).StatesOnly (· = l) := by
  refine Prog.StatesOnly.read fun defined _ => ?_
  split
  · refine Prog.StatesOnly.read fun s _ => ?_
    refine (locationFacts_statesOnly (by decide) l _).bind fun _ => ?_
    exact (membersFacts_factless s.members).mono (by simp)
  · trivial

theorem methodLocationFacts_statesOnly (f : Method) (places : List Declaration) (l : Label) :
    (methodLocationFacts m scope f places l).StatesOnly (· = l) := by
  refine Prog.StatesOnly.read fun defined _ => ?_
  split
  · exact locationFacts_statesOnly (by decide) l places
  · trivial

theorem namedTypeFacts_statesOnly (t : NamedType) (l : Label) :
    (namedTypeFacts m scope t l).StatesOnly (· = l) := by
  refine Prog.StatesOnly.bind (.fact rfl (by decide)) fun _ => ?_
  refine (relatedFact_statesOnly (by decide) l t.space).bind fun _ => ?_
  refine (relatedFact_statesOnly (by decide) l t.container).bind fun _ => ?_
  split
  · trivial
  · split
    · refine Prog.StatesOnly.bind (.fact rfl (by decide)) fun _ => ?_
      exact (typeArgumentFacts_factless _ _).mono (by simp)
    · exact declaredTypeFacts_statesOnly _ l

theorem methodFacts_statesOnly (f : Method) (l : Label) :
    (methodFacts m scope f l).StatesOnly (· = l) := by
  refine Prog.StatesOnly.bind (.fact rfl (by decide)) fun _ => ?_
  refine (relatedFact_statesOnly (by decide) l f.returnType).bind fun _ => ?_
  refine Prog.StatesOnly.read fun s _ => ?_
  refine (parameterFacts_statesOnly _ _ l).bind fun _ => ?_
  refine Prog.StatesOnly.bind ((typeArgumentFacts_factless _ _).mono (by simp)) fun _ => ?_
  split
  · split
    · trivial
    · refine Prog.StatesOnly.bind (.fact rfl (by decide)) fun _ => ?_
      exact methodLocationFacts_statesOnly f _ l
  · exact methodLocationFacts_statesOnly f _ l

theorem fileFacts_statesOnly (path : String) (l : Label) :
    (fileFacts m scope path l).StatesOnly (· = l) := by
  refine Prog.StatesOnly.bind (.fact rfl (by decide)) fun _ => ?_
  split
  · split
    · exact .fact rfl (by decide)
    · trivial
  · trivial

theorem assemblyTypeFacts_factless (ids : List SymbolId) :
    (Prog.each ids fun id => do
      let s ← Prog.ofExcept (m.symbol id)
      if isTopLevelType s id then
        .attempt none (some id) (do let _ ← m.typeLabel id) (.pure ())).Factless := by
  refine .each fun id _ => Prog.StatesOnly.read fun s _ => ?_
  split
  · exact ⟨(Model.typeLabel_factless id).bind fun _ => trivial, trivial⟩
  · trivial

theorem assemblyFacts_statesOnly (name : String) (f l : Label) :
    (assemblyFacts m scope name f l).StatesOnly (· = l) := by
  refine Prog.StatesOnly.bind (.fact rfl (by decide)) fun _ => ?_
  split
  · exact (assemblyTypeFacts_factless _).mono (by simp)
  · trivial

theorem spaceFacts_statesOnly (name : String) (parent : Option Label) (l : Label) :
    (spaceFacts name parent l).StatesOnly (· = l) := by
  refine Prog.StatesOnly.bind (.fact rfl (by decide)) fun _ => ?_
  cases parent with
  | none => trivial
  | some parent => exact .fact rfl (by decide)

theorem pointerFacts_statesOnly (symbol : SymbolId) (pointee l : Label) :
    (pointerFacts m symbol pointee l).StatesOnly (· = l) :=
  Prog.StatesOnly.bind (.fact rfl (by decide)) fun _ => .fact rfl (by decide)

/-- A description states facts about its own label alone. -/
theorem facts_statesOnly (en : Entity) (l : Label) : (facts m scope en l).StatesOnly (· = l) := by
  cases en with
  | file path => exact fileFacts_statesOnly path l
  | location file span => exact .fact rfl (by decide)
  | assembly name path file => exact assemblyFacts_statesOnly name file l
  | space symbol name parent => exact spaceFacts_statesOnly name parent l
  | namedType t => exact namedTypeFacts_statesOnly t l
  | pointer symbol pointee => exact pointerFacts_statesOnly symbol pointee l
  | method f => exact methodFacts_statesOnly f l
  | custom => trivial

theorem World.ofModel_statesOwn (m : Model) (scope : Scope) :
    (World.ofModel m scope).StatesOwn (facts m scope) where
  body _ := rfl
  factless recipe := Model.factory_factless recipe
  own en l := facts_statesOnly en l

/-- Visiting symbols states no facts. -/
theorem visitSymbol_factless (depth : Nat) (id : SymbolId) :
    (visitSymbol m scope depth id).Factless := by
  induction depth generalizing id with
  | zero => trivial
  | succ depth ih =>
    refine Prog.StatesOnly.read fun s _ => ?_
    split
    · refine Prog.StatesOnly.bind (fun _ => trivial) fun _ => .each fun member _ => ?_
      refine Prog.StatesOnly.read fun defined _ => ?_
      split
      · exact ⟨ih member, trivial⟩
      · trivial
    · split
      · exact (Model.typeLabel_factless id).bind fun _ => trivial
      · split
        · exact fun _ => trivial
        · trivial

theorem compiledFileFacts_statesOnly {relation : String} (hr : relation ≠ "params") (hl : mine l)
    (paths : List String) : (compiledFileFacts relation l paths).StatesOnly mine :=
  .each fun _ _ _ => .fact hl hr

/-- The compilation's label is nobody else's. -/
theorem extractCompilation_factless : (extractCompilation m).Factless := by
  intro l
  have hown : l = l ∨ False := .inl rfl
  change ((Prog.fact "compilations" _).bind _).StatesOnly _
  refine Prog.StatesOnly.bind (.fact hown (by decide)) fun _ => ?_
  refine Prog.StatesOnly.bind (.each fun _ _ => .fact hown (by decide)) fun _ => ?_
  refine (compiledFileFacts_statesOnly (by decide) hown _).bind fun _ => ?_
  exact (compiledFileFacts_statesOnly (by decide) hown _).bind fun _ => trivial

/-- What a unit starts from says nothing of a label that an entity has. -/
theorem TrapUnit.root_factless (unit : TrapUnit) : (unit.root m scope).Factless := by
  cases unit with
  | source tree =>
    refine Prog.StatesOnly.read fun t _ => ?_
    refine Prog.StatesOnly.bind (fun _ => trivial) fun _ => .each fun member _ => ?_
    exact ⟨visitSymbol_factless _ member, trivial⟩
  | assembly name => exact fun _ => trivial
  | compilation => exact extractCompilation_factless.bind fun _ => trivial

end TrapFacts
