import TrapFacts.Proofs.Engine.Near
import TrapFacts.TrapUnit

/-! The programs of a unit are discreet: where one meets an error of the model, it has nothing else
to do. -/

namespace TrapFacts

variable {m : Model} {scope : Scope} {last : Bool} {α β : Type}

namespace Prog.Discreet

theorem entity (recipe : Recipe) : (Prog.entity recipe).Discreet last :=
  fun _ => trivial

theorem fact (relation : String) (args : List Value) : (Prog.fact relation args).Discreet last :=
  trivial

end Prog.Discreet

namespace Model

theorem typeLabel_discreet (id : SymbolId) : (m.typeLabel id).Discreet last := by
  refine Prog.Discreet.read fun s _ => ?_
  split
  · exact fun _ => trivial
  · split
    · exact fun _ => trivial
    · trivial

theorem typeLabel?_discreet (id : Option SymbolId) : (m.typeLabel? id).Discreet last := by
  cases id with
  | none => trivial
  | some id => exact (typeLabel_discreet id).bind fun _ => trivial

theorem spaceLabel?_discreet (id : Option SymbolId) : (spaceLabel? id).Discreet last := by
  cases id with
  | none => trivial
  | some id => exact fun _ => trivial

/-- No factory reads what twins may differ in. -/
theorem factory_discreet (recipe : Recipe) : (m.factory recipe).Discreet last := by
  cases recipe with
  | file path => trivial
  | location place =>
    cases place with
    | none => exact fun _ => trivial
    | some place => exact Prog.Discreet.read fun tree _ _ => trivial
  | assembly name => exact fun _ _ => trivial
  | space id =>
    refine Prog.Discreet.read fun s _ => ?_
    exact (spaceLabel?_discreet _).bind fun _ => trivial
  | namedType id =>
    refine Prog.Discreet.read fun s _ => ?_
    refine (typeLabel?_discreet _).bind fun container => ?_
    refine (spaceLabel?_discreet _).bind fun space => ?_
    refine (typeLabel?_discreet _).bind fun definition => ?_
    exact (Prog.Discreet.collect fun a _ => typeLabel_discreet a).bind fun _ => trivial
  | pointer id =>
    refine Prog.Discreet.read fun s _ => ?_
    split
    · trivial
    · exact (typeLabel_discreet _).bind fun _ => trivial
  | method id =>
    refine Prog.Discreet.read fun s _ => ?_
    split
    · trivial
    · refine (typeLabel_discreet _).bind fun declaring => ?_
      refine (typeLabel?_discreet _).bind fun returnType => ?_
      exact (Prog.Discreet.collect fun p _ => typeLabel_discreet p.type).bind fun _ => trivial

end Model

theorem typeArgumentFacts_discreet (id : SymbolId) (l : Label) :
    (typeArgumentFacts m id l).Discreet last := by
  refine Prog.Discreet.read fun s _ => ?_
  split
  · intro new
    cases new with
    | false => trivial
    | true => exact Prog.Discreet.each fun _ _ => (Model.typeLabel_discreet _).bind fun _ => trivial
  · trivial

theorem locationFacts_discreet (relation : String) (l : Label) (places : List Declaration) :
    (locationFacts relation l places).Discreet last :=
  .each fun _ _ _ => trivial

theorem relatedFact_discreet (relation : String) (l : Label) (other : Option Label) :
    (relatedFact relation l other).Discreet last := by
  cases other <;> trivial

/-- What cannot be a member is an error of the model, and all there is to say about it. -/
theorem extractMember_discreet (member : SymbolId) : (extractMember m member).Discreet true := by
  refine Prog.Discreet.read fun s _ => ?_
  split
  · exact (Model.typeLabel_discreet _).bind fun _ => trivial
  · split
    · exact fun _ => trivial
    · exact ⟨rfl, trivial⟩

theorem declaredTypeFacts_discreet (id : SymbolId) (l : Label) :
    (declaredTypeFacts m scope id l).Discreet last := by
  refine Prog.Discreet.read fun defined _ => ?_
  split
  · refine Prog.Discreet.read fun s _ => ?_
    refine (locationFacts_discreet _ _ _).bind fun _ => ?_
    exact .each fun member _ => ⟨extractMember_discreet member, trivial⟩
  · trivial

theorem methodLocationFacts_discreet (f : Method) (places : List Declaration) (l : Label) :
    (methodLocationFacts m scope f places l).Discreet last := by
  refine Prog.Discreet.read fun defined _ => ?_
  split
  · exact locationFacts_discreet _ _ _
  · trivial

/-- An accessor that belongs to nothing is an error of the model, and comes last. -/
theorem methodFacts_discreet (f : Method) (l : Label) :
    (methodFacts m scope f l).Discreet true := by
  refine (relatedFact_discreet "returns" l f.returnType).bind fun _ => ?_
  refine Prog.Discreet.read fun s _ => ?_
  refine Prog.Discreet.bind (.each fun _ _ _ => trivial) fun _ => ?_
  refine (typeArgumentFacts_discreet _ _).bind fun _ => ?_
  split
  · split
    · exact ⟨rfl, trivial⟩
    · exact methodLocationFacts_discreet _ _ _
  · exact methodLocationFacts_discreet _ _ _

theorem fileFacts_discreet (path : String) (l : Label) :
    (fileFacts m scope path l).Discreet last := by
  unfold fileFacts
  refine Prog.Discreet.bind trivial fun _ => ?_
  split
  · split <;> trivial
  · trivial

theorem assemblyFacts_discreet (name : String) (f l : Label) :
    (assemblyFacts m scope name f l).Discreet last := by
  unfold assemblyFacts
  refine Prog.Discreet.bind trivial fun _ => ?_
  split
  · refine .each fun id _ => Prog.Discreet.read fun s _ => ?_
    split
    · exact ⟨(Model.typeLabel_discreet id).bind fun _ => trivial, trivial⟩
    · trivial
  · trivial

theorem namedTypeFacts_discreet (t : NamedType) (l : Label) :
    (namedTypeFacts m scope t l).Discreet last := by
  refine (relatedFact_discreet "parent_namespace" l t.space).bind fun _ => ?_
  refine (relatedFact_discreet "nested_types" l t.container).bind fun _ => ?_
  split
  · trivial
  · split
    · exact typeArgumentFacts_discreet _ _
    · exact declaredTypeFacts_discreet _ _

/-- Descriptions are discreet: an error of the model comes last in them. -/
theorem facts_discreet (en : Entity) (l : Label) : (facts m scope en l).Discreet true := by
  cases en with
  | file path => exact fileFacts_discreet path l
  | location f span => trivial
  | assembly name path f => exact assemblyFacts_discreet name f l
  | space id name parent => cases parent <;> trivial
  | namedType t => exact namedTypeFacts_discreet t l
  | pointer id pointee => trivial
  | method f => exact methodFacts_discreet f l
  | custom c => trivial

theorem World.ofModel_discreet (m : Model) (scope : Scope) : (ofModel m scope).Discreet where
  factory recipe := Model.factory_discreet recipe
  body _ en l := facts_discreet en l

/-- What cannot stand at the top level is an error of the model, and all there is to say of it. -/
theorem visitSymbol_discreet (depth : Nat) (id : SymbolId) :
    (visitSymbol m scope depth id).Discreet true := by
  induction depth generalizing id with
  | zero => trivial
  | succ depth ih =>
    refine Prog.Discreet.read fun s _ => ?_
    split
    · refine (Prog.Discreet.entity (.space id)).bind fun _ => ?_
      refine .each fun member _ => Prog.Discreet.read fun defined _ => ?_
      split
      · exact ⟨ih member, trivial⟩
      · trivial
    · split
      · exact (Model.typeLabel_discreet id).bind fun _ => trivial
      · split
        · exact fun _ => trivial
        · exact ⟨rfl, trivial⟩

theorem compiledFileFacts_discreet (relation : String) (l : Label) (paths : List String) :
    (compiledFileFacts relation l paths).Discreet last :=
  .each fun _ _ _ => trivial

theorem extractCompilation_discreet : (extractCompilation m).Discreet last := by
  have hfresh : Prog.freshLabel.Discreet false := fun _ => trivial
  refine hfresh.bind fun l => ?_
  refine (Prog.Discreet.fact _ _).bind fun _ => ?_
  refine Prog.Discreet.bind (.each fun _ _ => trivial) fun _ => ?_
  refine (compiledFileFacts_discreet _ _ _).bind fun _ => ?_
  exact (compiledFileFacts_discreet _ _ _).bind fun _ => trivial

namespace TrapUnit

theorem root_discreet (unit : TrapUnit) : (unit.root m scope).Discreet last := by
  cases unit with
  | source tree =>
    refine Prog.Discreet.read fun t _ _ => ?_
    exact .each fun member _ => ⟨visitSymbol_discreet _ member, trivial⟩
  | assembly name => exact fun _ => trivial
  | compilation => exact extractCompilation_discreet.bind fun _ => trivial

/-- What a unit does depends on no messages and on no other unit. -/
theorem program_discreet (unit : TrapUnit) : (unit.program m scope).Discreet last :=
  (root_discreet unit).bind fun _ => trivial

end TrapUnit

end TrapFacts
