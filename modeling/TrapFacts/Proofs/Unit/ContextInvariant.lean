import TrapFacts.Proofs.Engine.ContextInvariant
import TrapFacts.Proofs.Unit.Standing

/-! Conditions that a unit leaves true: what the programs of a unit do, and what its factories
make. -/

namespace TrapFacts

variable {m : Model} {scope : Scope} {cx : Context} {en : Entity} {l : Label} {id : SymbolId}
  {relations : List String}

/-- What a program does that states no facts but of these relations. Labels are opened for the
arguments of types alone. -/
def Act.Among (relations : List String) : Act → Prop
  | .states t => t.relation ∈ relations
  | .opens _ => "type_arguments" ∈ relations
  | .labels | .misses _ => True

theorem Prog.Acts.fact {relation : String} (args : List Value) (h : relation ∈ relations) :
    (Prog.fact relation args).Acts (Act.Among relations) :=
  ⟨h, trivial⟩

/-- The relations of the facts that describe an entity. -/
def Entity.factRelations : Entity → List String
  | .file _ => ["files", "numlines"]
  | .location _ _ => ["locations_default"]
  | .assembly _ _ _ => ["assemblies"]
  | .space _ _ _ => ["namespaces", "parent_namespace"]
  | .namedType _ => ["types", "parent_namespace", "nested_types", "constructed_from",
      "type_location", "type_arguments"]
  | .pointer _ _ => ["types", "pointer_referent_type"]
  | .method _ => ["methods", "returns", "params", "accessors", "method_location", "type_arguments"]
  | .custom _ => []

namespace Model

theorem typeLabel_gathers (id : SymbolId) : (m.typeLabel id).Gathers := by
  refine .read fun s _ => ?_
  split
  · exact fun _ => trivial
  · split
    · exact fun _ => trivial
    · trivial

theorem typeLabel?_gathers (id : Option SymbolId) : (m.typeLabel? id).Gathers := by
  cases id with
  | none => trivial
  | some id => exact (typeLabel_gathers id).bind fun _ => trivial

theorem spaceLabel?_gathers (id : Option SymbolId) : (spaceLabel? id).Gathers := by
  cases id with
  | none => trivial
  | some id => exact fun _ => trivial

theorem factory_gathers (recipe : Recipe) : (m.factory recipe).Gathers := by
  cases recipe with
  | file path => trivial
  | location place =>
    cases place with
    | none => exact fun _ => trivial
    | some place => exact .read fun tree _ _ => trivial
  | assembly name => exact fun _ _ => trivial
  | space id =>
    refine .read fun s _ => ?_
    exact (spaceLabel?_gathers _).bind fun _ => trivial
  | namedType id =>
    refine .read fun s _ => ?_
    refine (typeLabel?_gathers _).bind fun container => ?_
    refine (spaceLabel?_gathers _).bind fun space => ?_
    refine (typeLabel?_gathers _).bind fun definition => ?_
    exact (Prog.Acts.collect fun a _ => typeLabel_gathers a).bind fun _ => trivial
  | pointer id =>
    refine .read fun s _ => ?_
    split
    · trivial
    · exact (typeLabel_gathers _).bind fun _ => trivial
  | method id =>
    refine .read fun s _ => ?_
    split
    · trivial
    · refine (typeLabel_gathers _).bind fun declaring => ?_
      refine (typeLabel?_gathers _).bind fun returnType => ?_
      exact (Prog.Acts.collect fun p _ => typeLabel_gathers p.type).bind fun _ => trivial

end Model

theorem Prog.Acts.of_gathers {α : Type} {p : Prog α} {may : Act → Prop} (h : p.Gathers) :
    p.Acts may :=
  h.mono fun _ hf => hf.elim

theorem typeArgumentFacts_acts (h : "type_arguments" ∈ relations) (id : SymbolId) (l : Label) :
    (typeArgumentFacts m id l).Acts (Act.Among relations) := by
  refine .read fun s _ => ?_
  split
  · refine ⟨h, fun new => ?_⟩
    cases new with
    | false => trivial
    | true =>
      refine .each fun _ _ => (Prog.Acts.of_gathers (Model.typeLabel_gathers _)).bind fun _ => ?_
      exact .fact _ h
  · trivial

theorem extractMember_gathers (member : SymbolId) : (extractMember m member).Gathers := by
  refine .read fun s _ => ?_
  split
  · exact (Model.typeLabel_gathers _).bind fun _ => trivial
  · split
    · exact fun _ => trivial
    · trivial

theorem locationFacts_acts {relation : String} (h : relation ∈ relations) (l : Label)
    (places : List Declaration) : (locationFacts relation l places).Acts (Act.Among relations) :=
  .each fun _ _ _ => .fact _ h

theorem relatedFact_acts {relation : String} (h : relation ∈ relations) (l : Label)
    (other : Option Label) : (relatedFact relation l other).Acts (Act.Among relations) := by
  cases other with
  | none => trivial
  | some other => exact .fact _ h

theorem declaredTypeFacts_acts (h : "type_location" ∈ relations) (id : SymbolId) (l : Label) :
    (declaredTypeFacts m scope id l).Acts (Act.Among relations) := by
  refine .read fun defined _ => ?_
  split
  · refine .read fun s _ => ?_
    refine (locationFacts_acts h l _).bind fun _ => .each fun member _ => ?_
    exact ⟨.of_gathers (extractMember_gathers member), trivial⟩
  · trivial

theorem parameterFacts_acts (h : "params" ∈ relations) (parameters : List Parameter)
    (types : List Label) (l : Label) :
    (parameterFacts parameters types l).Acts (Act.Among relations) :=
  .each fun _ _ => ⟨trivial, fun _ => .fact _ h⟩

theorem methodLocationFacts_acts (h : "method_location" ∈ relations) (f : Method)
    (places : List Declaration) (l : Label) :
    (methodLocationFacts m scope f places l).Acts (Act.Among relations) := by
  refine .read fun defined _ => ?_
  split
  · exact locationFacts_acts h l places
  · trivial

theorem accessorFacts_acts (ha : "accessors" ∈ relations) (h : "method_location" ∈ relations)
    (f : Method) (s : Symbol) (l : Label) :
    (if f.kind = .accessor then
      match s.associatedSymbol with
      | none => .modelError (some f.symbol) "Unhandled accessor associated symbol" (.pure ())
      | some owner => do
        Prog.fact "accessors" [.label l, .text (m.displayName owner)]
        methodLocationFacts m scope f s.locations l
    else methodLocationFacts m scope f s.locations l : Prog Unit).Acts (Act.Among relations) := by
  split
  · split
    · trivial
    · exact ⟨ha, methodLocationFacts_acts h f _ l⟩
  · exact methodLocationFacts_acts h f _ l

/-- A type that was not resolved, or was not constructed, has no arguments to tell. -/
theorem namedTypeFacts_acts {t : NamedType} (h : ["types", "parent_namespace", "nested_types",
    "constructed_from", "type_location"] ⊆ relations)
    (ha : t.kind ≠ .error → t.definition.isSome = true → "type_arguments" ∈ relations) (l : Label) :
    (namedTypeFacts m scope t l).Acts (Act.Among relations) := by
  refine Prog.Acts.bind (.fact _ (h (by simp))) fun _ => ?_
  refine (relatedFact_acts (h (by simp)) l t.space).bind fun _ => ?_
  refine (relatedFact_acts (h (by simp)) l t.container).bind fun _ => ?_
  split
  · exact ⟨trivial, trivial⟩
  · next hk =>
    split
    · next hd =>
      refine Prog.Acts.bind (.fact _ (h (by simp))) fun _ => ?_
      exact typeArgumentFacts_acts (ha hk (by simp [hd])) _ _
    · exact declaredTypeFacts_acts (h (by simp)) _ l

/-- A description states facts of its own relations alone. -/
theorem facts_acts (en : Entity) (l : Label) :
    (facts m scope en l).Acts (Act.Among en.factRelations) := by
  cases en with
  | file path =>
    refine Prog.Acts.bind (.fact _ (by simp [Entity.factRelations])) fun _ => ?_
    split
    · split
      · exact .fact _ (by simp [Entity.factRelations])
      · trivial
    · trivial
  | location file span => exact .fact _ (by simp [Entity.factRelations])
  | assembly name path file =>
    refine Prog.Acts.bind (.fact _ (by simp [Entity.factRelations])) fun _ => ?_
    split
    · refine .each fun id _ => .read fun s _ => ?_
      split
      · exact ⟨.of_gathers ((Model.typeLabel_gathers id).bind fun _ => trivial), trivial⟩
      · trivial
    · trivial
  | space symbol name parent =>
    refine Prog.Acts.bind (.fact _ (by simp [Entity.factRelations])) fun _ => ?_
    cases parent with
    | none => trivial
    | some parent => exact .fact _ (by simp [Entity.factRelations])
  | namedType t =>
    exact namedTypeFacts_acts (by simp [Entity.factRelations])
      (fun _ _ => by simp [Entity.factRelations]) l
  | pointer symbol pointee =>
    exact Prog.Acts.bind (.fact _ (by simp [Entity.factRelations])) fun _ =>
      .fact _ (by simp [Entity.factRelations])
  | method f =>
    refine Prog.Acts.bind (.fact _ (by simp [Entity.factRelations])) fun _ => ?_
    refine (relatedFact_acts (by simp [Entity.factRelations]) l f.returnType).bind fun _ => ?_
    refine .read fun s _ => ?_
    refine (parameterFacts_acts (by simp [Entity.factRelations]) _ _ l).bind fun _ => ?_
    refine (typeArgumentFacts_acts (by simp [Entity.factRelations]) _ _).bind fun _ => ?_
    exact accessorFacts_acts (by simp [Entity.factRelations]) (by simp [Entity.factRelations]) f s l
  | custom => trivial

/-- What a unit starts from states facts of a compilation alone. -/
def TrapUnit.factRelations : List String :=
  ["compilations", "compilation_args", "compilation_compiling_files",
    "compilation_referencing_files"]

/-- Visiting symbols states no facts: it makes entities. -/
theorem visitSymbol_gathers (depth : Nat) (id : SymbolId) :
    (visitSymbol m scope depth id).Gathers := by
  induction depth generalizing id with
  | zero => trivial
  | succ depth ih =>
    refine .read fun s _ => ?_
    split
    · refine Prog.Acts.bind (fun _ => trivial) fun _ => .each fun member _ => ?_
      refine .read fun defined _ => ?_
      split
      · exact ⟨ih member, trivial⟩
      · trivial
    · split
      · exact (Model.typeLabel_gathers id).bind fun _ => trivial
      · split
        · exact fun _ => trivial
        · trivial

theorem TrapUnit.root_source_gathers (tree : TreeId) : ((source tree).root m scope).Gathers := by
  refine .read fun t _ => ?_
  refine Prog.Acts.bind (fun _ => trivial) fun _ => .each fun member _ => ?_
  exact ⟨visitSymbol_gathers _ member, trivial⟩

theorem TrapUnit.root_assembly_gathers (name : String) :
    ((assembly name).root m scope).Gathers :=
  fun _ => trivial

/-- The program of a unit states the facts of its compilation alone. -/
theorem TrapUnit.root_acts (unit : TrapUnit) : (unit.root m scope).Acts
    (Act.Among factRelations) := by
  cases unit with
  | source tree => exact .of_gathers (root_source_gathers tree)
  | assembly name => exact .of_gathers (root_assembly_gathers name)
  | compilation =>
    refine Prog.Acts.bind ?_ fun _ => trivial
    refine ⟨trivial, fun own => ?_⟩
    change ((Prog.fact "compilations" _).bind _).Acts _
    refine Prog.Acts.bind (.fact _ (by simp [factRelations])) fun _ => ?_
    refine Prog.Acts.bind (.each fun _ _ => .fact _ (by simp [factRelations])) fun _ => ?_
    refine Prog.Acts.bind (.each fun _ _ _ => .fact _ (by simp [factRelations])) fun _ => ?_
    exact Prog.Acts.bind (.each fun _ _ _ => .fact _ (by simp [factRelations])) fun _ => trivial

/-- A condition on contexts in which entities are made as the model has them. -/
def Model.invariant (m : Model) (holds : Context → Prop) : ContextInvariant where
  holds := holds
  yields recipe := recipe.Yields m
  yielded h he := Recipe.lasting_yields _ _ _ h he

/-- What the engine and new entities leave true. -/
structure Model.EngineKeeps (m : Model) (holds : Context → Prop) : Prop where
  step : ∀ {cx cx'}, holds cx → cx.Steps cx' → holds cx'
  introduce : ∀ {recipe en cx}, holds cx → cx.same? (Recipe.slot recipe) en = none →
    recipe.Yields m en cx → holds (cx.introduce recipe.slot en).2

/-- From a context, a program of the unit leaves a condition true. -/
abbrev UnitKeeps {α : Type} (m : Model) (scope : Scope) (holds : Context → Prop) (p : Prog α)
    (cx : Context) (good : α → Context → Prop) : Prop :=
  (m.invariant holds).ProgKeeps (.ofModel m scope) (facts m scope) p cx good

variable {holds : Context → Prop}

theorem Model.EngineKeeps.engineKeeps (h : m.EngineKeeps holds) (scope : Scope) :
    (m.invariant holds).EngineKeeps (.ofModel m scope) (facts m scope) where
  described _ := rfl
  gathers recipe := Model.factory_gathers recipe
  step := h.step
  introduce := h.introduce

namespace UnitKeeps

variable (hs : m.EngineKeeps holds)

include hs

theorem entity (recipe : Recipe) :
    UnitKeeps m scope holds (.entity recipe) cx fun c cx' => .served recipe.slot c ∈ cx'.events ∧
      (recipe.slot = .value → recipe.Yields m c.entity cx') :=
  (ContextInvariant.ProgKeeps.entity (hs.engineKeeps scope) recipe).mono
    fun _ _ hr => ⟨hr.served, hr.made⟩

theorem file (path : String) :
    UnitKeeps m scope holds (.entity (.file path)) cx fun c cx' => cx'.FileAt path c.label := by
  refine (entity hs (.file path)).mono fun c cx' hc => ?_
  obtain ⟨hserved, hy⟩ := hc
  have hentity : c.entity = .file (slashed path) := hy rfl
  change .served .value ⟨c.label, .file (slashed path)⟩ ∈ cx'.events
  rw [← hentity]
  exact hserved

theorem space (id : SymbolId) :
    UnitKeeps m scope holds (.entity (.space id)) cx fun c cx' => m.SpaceAt cx' id c.label := by
  refine (entity hs (.space id)).mono fun c cx' hc => ?_
  obtain ⟨hserved, hy⟩ := hc
  obtain ⟨s, parent, hsym, hp, hen⟩ := hy rfl
  have hh : cx'.Handed (.space id s.name parent) c.label := by
    rw [← hen]
    exact hserved
  generalize hn : s.containingNamespace = container at hp
  cases hp with
  | none => exact .root hsym hn hh
  | some hp => exact .child hsym hn hp hh

theorem typeLabel (id : SymbolId) :
    UnitKeeps m scope holds (m.typeLabel id) cx fun l cx' => m.TypeAt cx' id l := by
  refine .read fun s hsym => ?_
  split
  · next hk =>
    refine (entity hs (.pointer id)).bind fun c cx₁ _ hc => .pure ?_
    exact ⟨_, by simp [Model.typeRecipe?, hsym, hk], c, hc.1, rfl⟩
  · next hk =>
    split
    · next ht =>
      refine (entity hs (.namedType id)).bind fun c cx₁ _ hc => .pure ?_
      exact ⟨_, by simp [Model.typeRecipe?, hsym, hk, ht], c, hc.1, rfl⟩
    · exact .fail

theorem typeLabel? (id : Option SymbolId) :
    UnitKeeps m scope holds (m.typeLabel? id) cx fun l cx' =>
      Option.Rel (m.TypeAt cx') id l := by
  cases id with
  | none => exact .pure .none
  | some id => exact (typeLabel hs id).bind fun _ _ _ hl => .pure (.some hl)

theorem spaceLabel? (id : Option SymbolId) :
    UnitKeeps m scope holds (Model.spaceLabel? id) cx fun l cx' =>
      Option.Rel (m.SpaceAt cx') id l := by
  cases id with
  | none => exact .pure .none
  | some id => exact (space hs id).bind fun _ _ _ hl => .pure (.some hl)

/-- A factory keeps the invariant and yields what its recipe is for. -/
theorem factory (recipe : Recipe) :
    UnitKeeps m scope holds (m.factory recipe) cx (recipe.Yields m) := by
  cases recipe with
  | file path => exact .pure rfl
  | location place =>
    cases place with
    | none => exact (file hs "").bind fun c _ _ hc => .pure ⟨c.label, hc, rfl⟩
    | some place =>
      refine .read fun tree ht => ?_
      exact (file hs _).bind fun c _ _ hc => .pure ⟨tree, c.label, ht, hc, rfl⟩
  | assembly name =>
    refine .assemblyFile fun file => ?_
    exact (UnitKeeps.file hs _).bind fun c _ _ hc => .pure ⟨_, c.label, hc, rfl⟩
  | space id =>
    refine .read fun s hsym => ?_
    exact (spaceLabel? hs _).bind fun parent _ _ hp => .pure ⟨s, parent, hsym, hp, rfl⟩
  | namedType id =>
    refine .read fun s hsym => ?_
    refine (typeLabel? hs _).bind fun container cx₁ _ hcontainer => ?_
    refine (spaceLabel? hs _).bind fun space cx₂ hf₂ hspace => ?_
    refine (typeLabel? hs _).bind fun definition cx₃ hf₃ hdefinition => ?_
    have hlabels : UnitKeeps m scope holds
        (Prog.collect (if definition.isSome then s.typeArguments else []) m.typeLabel) cx₃
        fun ls cx' => List.Forall₂ (m.TypeAt cx')
          (if definition.isSome then s.typeArguments else []) ls :=
      .collect (fun ht he => ht.mono he) fun a _ _ => typeLabel hs a
    refine hlabels.bind fun arguments cx₄ hf₄ harguments => .pure ?_
    have he₃ := hf₃.events.trans hf₄.events
    exact ⟨s, _, hsym, {
      symbol := rfl, kind := rfl, name := rfl, location := rfl, arguments := harguments
      container := hcontainer.mono fun _ _ ht => ht.mono (hf₂.events.trans he₃)
      space := hspace.mono fun _ _ hp => hp.mono he₃
      definition := hdefinition.mono fun _ _ ht => ht.mono hf₄.events }, rfl⟩
  | pointer id =>
    refine .read fun s hsym => ?_
    split
    · exact .fail
    · next pointee hpointee =>
      refine (typeLabel hs pointee).bind fun l _ _ hl => .pure ?_
      exact ⟨s, pointee, l, hsym, hpointee, hl, rfl⟩
  | method id =>
    refine .read fun s hsym => ?_
    split
    · exact .fail
    · next owner howner =>
      refine (typeLabel hs owner).bind fun declaring cx₁ _ hdeclaring => ?_
      refine (typeLabel? hs _).bind fun returned cx₂ hf₂ hreturned => ?_
      have hlabels : UnitKeeps m scope holds
          (Prog.collect s.parameters fun p => m.typeLabel p.type) cx₂
          fun ls cx' => List.Forall₂ (fun (p : Parameter) l => m.TypeAt cx' p.type l)
            s.parameters ls :=
        .collect (fun ht he => ht.mono he) fun p _ _ => typeLabel hs p.type
      refine hlabels.bind fun types cx₃ hf₃ htypes => .pure ?_
      exact ⟨s, _, hsym, {
        symbol := rfl, kind := rfl, name := rfl, location := rfl, declaringSymbol := howner
        declaring := hdeclaring.mono (hf₂.events.trans hf₃.events)
        returnType := hreturned.mono fun _ _ ht => ht.mono hf₃.events
        parameters := List.forall₂_map_left_iff.2 htypes }, rfl⟩

end UnitKeeps

/-- Who runs what a program nests. -/
abbrev Model.DeeperKeeps (m : Model) (scope : Scope) (holds : Context → Prop)
    (deeper : Option Runner) : Prop :=
  ∀ run, deeper = some run → (m.invariant holds).RunnerKeeps (.ofModel m scope) (facts m scope) run

/-- What descriptions leave true as well. -/
structure Model.DescriptionsKeep (m : Model) (scope : Scope) (holds : Context → Prop) : Prop
    extends m.EngineKeeps holds where
  body : ∀ {deeper drain en l cx}, m.DeeperKeeps scope holds deeper →
    (m.invariant holds).Stands (facts m scope) cx → (∃ slot, .created slot ⟨l, en⟩ ∈ cx.events) →
    (m.invariant holds).Kept (facts m scope) cx
      ((World.ofModel m scope).eval deeper drain (facts m scope en l) (cx.populating en l)).context

/-- What all descriptions of a model keep, its engine does. -/
theorem Model.DescriptionsKeep.descriptionsKeep (h : m.DescriptionsKeep scope holds) :
    (m.invariant holds).DescriptionsKeep (.ofModel m scope) (facts m scope) where
  toEngineKeeps := h.toEngineKeeps.engineKeeps scope
  factory hdeeper hcx hd :=
    (UnitKeeps.factory h.toEngineKeeps _ _ _ hdeeper hcx).2 _ hd
  body := h.body

/-- A description leaves true what its program does, once it has begun. -/
theorem UnitKeeps.body {α : Type} {p : Prog α} {good : α → Context → Prop}
    {deeper : Option Runner} {drain : Context → Reply Unit}
    (h : UnitKeeps m scope holds p (cx.populating en l) good)
    (hdeeper : m.DeeperKeeps scope holds deeper)
    (hcx : (m.invariant holds).Stands (facts m scope) cx) (hbegin : holds (cx.populating en l)) :
    (m.invariant holds).Kept (facts m scope) cx
      ((World.ofModel m scope).eval deeper drain p (cx.populating en l)).context := by
  have hf := Frame.populating cx en l
  have hstands : (m.invariant holds).Stands (facts m scope) (cx.populating en l) :=
    ⟨hbegin, hcx.waits.along hf.events rfl⟩
  exact ContextInvariant.Kept.trans ⟨hstands, hf⟩ (h deeper drain hdeeper hstands).1

/-- What a description leaves true that takes no more to begin. -/
theorem Model.EngineKeeps.body {deeper : Option Runner} {drain : Context → Reply Unit}
    {may : Act → Prop} (h : m.EngineKeeps holds) (hdeeper : m.DeeperKeeps scope holds deeper)
    (hcx : (m.invariant holds).Stands (facts m scope) cx) (hbegin : holds (cx.populating en l))
    {p : Prog Unit} (hp : p.Acts may) (hm : (m.invariant holds).Permits (cx.populating en l) may) :
    (m.invariant holds).Kept (facts m scope) cx
      ((World.ofModel m scope).eval deeper drain p (cx.populating en l)).context :=
  UnitKeeps.body (.acts (h.engineKeeps scope) hp hm) hdeeper hcx hbegin

namespace TrapUnit

/-- The last report is one of an error. -/
theorem conclude_steps (m : Model) (name : String) (r : Reply Unit) :
    r.context.Steps (conclude m name r).2 := by
  obtain ⟨o, cx⟩ := r
  have hstill : cx.Steps cx := ⟨⟨[], by simp, by simp⟩, rfl, rfl, rfl, rfl, rfl⟩
  cases o with
  | done | exhausted => exact hstill
  | failed e =>
    simp only [conclude]
    split
    · exact .send rfl none
    · exact .send (m.severity_failureMessage e none none) none

variable {x : Extractor} (h : m.DescriptionsKeep scope holds) (unit : TrapUnit)
  (hm : (m.invariant holds).Permits { extractor := x } (Act.Among factRelations))
  (hx : holds { extractor := x }) (budget : Nat)

include h hm hx

/-- What holds at the outset of a unit holds when its run is over. -/
theorem runIn_holds : holds (unit.runIn m scope x budget).context := by
  have hstands : (m.invariant holds).Stands (facts m scope) { extractor := x } :=
    ⟨hx, by simp [Context.Waits]⟩
  refine (ContextInvariant.run_kept h.descriptionsKeep ?_ hm hstands budget).stands.holds
  exact root_acts unit

/-- What the engine and all descriptions keep holds at the end of a unit. -/
theorem finish_holds : holds (unit.finish m scope x budget).2 :=
  h.step (runIn_holds h unit hm hx budget) (conclude_steps m _ _)

end TrapUnit

end TrapFacts
