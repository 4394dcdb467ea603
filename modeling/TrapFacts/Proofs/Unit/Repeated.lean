import Mathlib
import TrapFacts.Proofs.Engine.Repeated
import TrapFacts.Proofs.Unit.Arguments

/-! What was extracted is not extracted again: a second extraction in the same context adds nothing,
though what failed fails once more. -/

namespace TrapFacts

variable {u : ScopedUnit} {m : Model} {scope : Scope} {x : Extractor} {unit : TrapUnit}
  {cx : Context} {l : Label} {id : SymbolId} {recipe : Recipe} {budget : Nat}

/-- A context goes by the assembly table and the settings of an extractor. -/
def Extractor.Rules (x : Extractor) (cx : Context) : Prop :=
  cx.extractor.assemblyFile? = x.assemblyFile? ∧ cx.extractor.config = x.config

theorem Extractor.rules_descriptionsKeep (m : Model) (scope : Scope) (x : Extractor) :
    m.DescriptionsKeep scope x.Rules := by
  have hstep : ∀ {cx cx' : Context}, x.Rules cx → cx.Steps cx' → x.Rules cx' :=
    fun h hs => ⟨hs.files.trans h.1, hs.config.trans h.2⟩
  have hengine : m.EngineKeeps x.Rules := by
    refine ⟨hstep, ?_⟩
    intro recipe en cx h _ _
    have hdiagnosed := Context.DiagnosedOnly.register
      (cx.allocate.remember recipe.slot ⟨cx.nextLabel, en⟩) en.key.render
    have hremembered : x.Rules (cx.allocate.remember recipe.slot ⟨cx.nextLabel, en⟩) := by
      cases recipe <;> exact h
    exact ⟨hdiagnosed.files.trans hremembered.1, hdiagnosed.config.trans hremembered.2⟩
  refine ⟨hengine, ?_⟩
  intro deeper drain en l cx hdeeper hcx _
  refine hengine.body hdeeper hcx hcx.holds (facts_acts en l) fun a cx _ _ h => ?_
  cases a <;> exact h

namespace Model

/-- A recipe by which an entity can be made, its labels standing for what they ought to. -/
def Made (m : Model) (cx : Context) (recipe : Recipe) : Prop :=
  ∃ en, recipe.Yields m en cx

/-- A program that makes again what was made, so it does not fail. -/
abbrev Sure {α : Type} (m : Model) (cx : Context) (p : Prog α) (good : α → Prop) : Prop :=
  p.Keeps (m.Made cx) (fun _ => False) good

theorem SpaceAt.made (h : m.SpaceAt cx id l) : m.Made cx (.space id) := by
  cases h with
  | root hs hroot => exact ⟨_, _, none, hs, by rw [hroot]; exact .none, rfl⟩
  | child hs hchild habove => exact ⟨_, _, some _, hs, by rw [hchild]; exact .some habove, rfl⟩

theorem read_sure {α β : Type} {r : Except Failure β} {b : β} {f : β → Prog α} {good : α → Prop}
    (hr : r = .ok b) (h : m.Sure cx (f b) good) : m.Sure cx ((Prog.ofExcept r).bind f) good := by
  rw [hr]
  exact h

theorem file_sure {path : String} {k : Created → Prog Entity}
    (hk : ∀ c, m.Sure cx (k c) fun _ => True) :
    m.Sure cx ((Prog.entity (.file path)).bind k) fun _ => True :=
  ⟨⟨_, rfl⟩, hk⟩

theorem spaceLabel?_sure {symbol : Option SymbolId} {space : Option Label}
    (h : Option.Rel (m.SpaceAt cx) symbol space) :
    m.Sure cx (spaceLabel? symbol) fun _ => True := by
  cases h with
  | none => trivial
  | some hs => exact ⟨hs.made, fun _ => trivial⟩

section

variable (hf : u.Founded cx) (ho : Orderly cx)

include hf ho

/-- What an object stands for was made by its own recipe. -/
theorem made_of_known {c : Created} (hknown : cx.known? recipe.slot = some c) :
    u.model.Made cx recipe := by
  obtain ⟨en, hc, -⟩ := ho.same _ c.entity c (Context.same?_of_known hknown _)
  obtain ⟨recipe', hslot, -, hy⟩ := hf.created _ _ _ hc
  cases hobject : recipe.slot with
  | value => rw [hobject] at hknown; cases hknown
  | object type source =>
    obtain rfl := Recipe.eq_of_slot (hslot.symm.trans hobject) hobject
    exact ⟨en, hy⟩

/-- A type that has a label is in the cache. -/
theorem TypeAt.made (h : u.model.TypeAt cx id l) :
    ∃ recipe, u.model.typeRecipe? id = some recipe ∧ u.model.Made cx recipe := by
  obtain ⟨recipe, hr, c, hc, -⟩ := h
  obtain ⟨type, hslot⟩ := typeRecipe?_slot hr
  have hknown := ho.served _ c hc
  rw [hslot] at hknown
  exact ⟨recipe, hr, made_of_known hf ho (by rw [hslot]; exact hknown)⟩

/-- To name a type that was made before does not fail. -/
theorem typeLabel_sure (h : u.model.TypeAt cx id l) :
    u.model.Sure cx (u.model.typeLabel id) fun _ => True := by
  obtain ⟨recipe, hr, hmade⟩ := h.made hf ho
  rw [typeLabel_of_typeRecipe? hr]
  exact ⟨hmade, fun _ => trivial⟩

theorem typeLabel?_sure {symbol : Option SymbolId} {type : Option Label}
    (h : Option.Rel (u.model.TypeAt cx) symbol type) :
    u.model.Sure cx (u.model.typeLabel? symbol) fun label => label.isSome = type.isSome := by
  cases h with
  | none => rfl
  | some ht => exact (typeLabel_sure hf ho ht).bind fun _ _ => rfl

theorem typeLabels_sure {β : Type} {items : List β} (type : β → SymbolId) {types : List Label}
    (h : List.Forall₂ (fun b => u.model.TypeAt cx (type b)) items types) :
    u.model.Sure cx (Prog.collect items fun b => u.model.typeLabel (type b)) fun _ => True := by
  refine .collect fun b hb => ?_
  obtain ⟨l, -, hl⟩ := h.flip.of_mem hb
  exact typeLabel_sure hf ho hl

/-- What was made can be made again. -/
theorem factory_sure (h : u.model.Made cx recipe) :
    u.model.Sure cx (u.model.factory recipe) fun _ => True := by
  obtain ⟨en, hy⟩ := h
  cases recipe with
  | file path => trivial
  | location place =>
    cases place with
    | none => exact file_sure fun _ => trivial
    | some place =>
      obtain ⟨tree, f, ht, -⟩ := hy
      exact read_sure ht (file_sure fun _ => trivial)
  | assembly name => exact fun file => file_sure fun _ => trivial
  | space id =>
    obtain ⟨s, parent, hs, hp, -⟩ := hy
    exact read_sure hs ((spaceLabel?_sure hp).bind fun _ _ => trivial)
  | namedType id =>
    obtain ⟨s, t, hs, hstands, -⟩ := hy
    refine read_sure hs ?_
    -- Namespace and arguments depend on whether there were a container and a definition.
    refine (typeLabel?_sure hf ho hstands.container).bind fun container hcontainer => ?_
    have hspace := spaceLabel?_sure hstands.space
    rw [← Option.not_isSome, ← hcontainer, Option.not_isSome] at hspace
    refine hspace.bind fun _ _ => ?_
    refine (typeLabel?_sure hf ho hstands.definition).bind fun definition hdefinition => ?_
    have harguments := typeLabels_sure hf ho (fun a => a) hstands.arguments
    rw [← hdefinition] at harguments
    exact harguments.bind fun _ _ => trivial
  | pointer id =>
    obtain ⟨s, pointee, l, hs, hpointee, hl, -⟩ := hy
    refine read_sure hs ?_
    rw [hpointee]
    exact (typeLabel_sure hf ho hl).bind fun _ _ => trivial
  | method id =>
    obtain ⟨s, f, hs, hstands, -⟩ := hy
    refine read_sure hs ?_
    rw [hstands.declaringSymbol]
    refine (typeLabel_sure hf ho hstands.declaring).bind fun _ _ => ?_
    refine (typeLabel?_sure hf ho hstands.returnType).bind fun _ _ => ?_
    have hparameters := typeLabels_sure hf ho Parameter.type
      (List.forall₂_map_left_iff.1 hstands.parameters)
    exact hparameters.bind fun _ _ => trivial

/-- What a unit has made is complete. -/
theorem complete : (World.ofModel u.model u.scope).Complete cx where
  served := ho.served
  sure recipe c hknown drain room := by
    have hsure := factory_sure hf ho (made_of_known hf ho hknown)
    exact World.runWithin_contained (fun _ => factory_sure hf ho) drain room hsure

end

end Model

namespace TrapUnit

/-- A unit's program comes to the same when it runs again in the context that it left, or in one
that differs in diagnostics alone. -/
theorem run_diagnosedOnly {d : Context} (hunit : unit ≠ .compilation)
    (hdone : unit.runIn m scope x budget = ⟨.done (), cx⟩) (hd : cx.DiagnosedOnly d) (again : Nat) :
    let r := (World.ofModel m scope).run again (unit.program m scope) d
    r.outcome = .done () ∧ cx.DiagnosedOnly r.context := by
  have hend : unit.finish m scope x budget = (.extracted, cx) := by
    unfold finish
    rw [hdone]
    rfl
  have hgathers : (unit.root m scope).Gathers := by
    cases unit with
    | source tree => exact root_source_gathers tree
    | assembly name => exact root_assembly_gathers name
    | compilation => exact absurd rfl hunit
  have hqueue := runIn_queue unit m scope x budget (by rw [hdone]; rfl)
  have hfounded := finish_founded unit m scope x budget
  have hsound := finish_sound unit m scope x budget
  have hrules := runIn_holds (x.rules_descriptionsKeep m scope) unit
    (fun a cx _ _ h => by cases a <;> exact h) ⟨rfl, rfl⟩ budget
  rw [hdone] at hqueue hrules
  rw [hend] at hfounded hsound
  refine ContextInvariant.run_repeats (Model.complete hfounded hsound.orderly) ?_
    (x.rules_descriptionsKeep m scope).descriptionsKeep hgathers ⟨⟨rfl, rfl⟩, ?_⟩ hdone hqueue hd
    again
  · intro cx₁ h
    exact ⟨h.1.trans hrules.1.symm, congrArg ExtractionConfig.standalone (h.2.trans hrules.2.symm)⟩
  · simp [Context.Waits]

/-- Extracting again adds nothing. -/
theorem runIn_again (hunit : unit ≠ .compilation)
    (hdone : unit.runIn m scope x budget = ⟨.done (), cx⟩) (again : Nat) :
    let r := (World.ofModel m scope).run again (unit.program m scope) cx
    r.outcome = .done () ∧ r.context.trap = cx.trap ∧ r.context.stats = cx.stats ∧
      r.context.queue = [] := by
  intro r
  obtain ⟨hout, hdiagnosed⟩ := run_diagnosedOnly hunit hdone (.refl cx) again
  have hqueue := runIn_queue unit m scope x budget (by rw [hdone]; rfl)
  rw [hdone] at hqueue
  have hstats : r.context.muted.stats = cx.muted.stats := congrArg Context.stats hdiagnosed.muted
  exact ⟨hout, hdiagnosed.trap, hstats, hdiagnosed.queue.trans hqueue⟩

section

-- Evaluation compares keys by their literals, not byte by byte.
attribute [local irreducible] String.decEq

/-- A pointer to nothing next to a class. -/
theorem runIn_again_failing :
    let m : Model := {
      trees := [{ path := "a.cs", members := [⟨0⟩, ⟨1⟩] }]
      symbols := [{ name := "P", kind := .pointer }, { name := "C", kind := .classType }] }
    let scope : Scope := .source ⟨0⟩ "a.cs"
    let first := (source ⟨0⟩).runIn m scope {} m.drainBudget
    let second := (World.ofModel m scope).run m.drainBudget ((source ⟨0⟩).program m scope)
      first.context
    first.outcome = .done () ∧ first.context.extractor.errors = 1 ∧
      second.outcome = .done () ∧ second.context.trap = first.context.trap ∧
      second.context.stats = first.context.stats ∧ second.context.queue = [] := by
  intro m scope first second
  have hdone : ((source ⟨0⟩).runIn m scope {} m.drainBudget).outcome = .done () := by cbv
  have herrors : ((source ⟨0⟩).runIn m scope {} m.drainBudget).context.extractor.errors = 1 := by
    cbv
  have hfirst : (source ⟨0⟩).runIn m scope {} m.drainBudget = ⟨.done (), first.context⟩ := by
    rw [← hdone]
  exact ⟨hdone, herrors, runIn_again (by simp) hfirst m.drainBudget⟩

end

end TrapUnit

end TrapFacts
