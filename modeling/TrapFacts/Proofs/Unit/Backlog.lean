import TrapFacts.Proofs.Engine.Backlog
import TrapFacts.Proofs.Unit.Conduct
import TrapFacts.Proofs.Unit.Portable

/-! No unit runs out of turns: it ends with its queue empty, or where the limit was met. -/

namespace TrapFacts

variable {m : Model} {scope : Scope} {unit : TrapUnit} {x : Extractor} {room bonus : Nat}
  {may : Bool → Nat → Recipe → Prop} {limits : Nat → Prop} {cx : Context} {c c' : Created}
  {recipe : Recipe}

/-- The recipe of an entity whose description may have to wait. -/
def Entity.origin? : Entity → Option Recipe
  | file path => some (.file path)
  | space id _ _ => some (.space id)
  | namedType t => some (.namedType t.symbol)
  | method f => some (.method f.symbol)
  | _ => none

namespace Model

def symbolIds (m : Model) : List SymbolId :=
  (List.range m.symbols.length).map SymbolId.mk

/-- What the descriptions that wait can be of: each symbol is a type or a method and may be a
namespace, and each file of the model counts once. -/
def deferrable (m : Model) : List Recipe :=
  m.symbolIds.map (fun id => if m.typeRecipe? id = none then .method id else .namedType id) ++
    m.symbolIds.map .space ++ ("" :: m.trees.map (·.path)).map fun path => .file (slashed path)

/-- How much work a model can put off at most. -/
theorem length_deferrable (m : Model) :
    m.deferrable.length = 2 * m.symbols.length + m.trees.length + 1 := by
  simp [deferrable, symbolIds]
  omega

theorem mem_symbolIds {id : SymbolId} {s : Symbol} (hs : m.symbol id = .ok s) :
    id ∈ m.symbolIds := by
  obtain ⟨hin, -⟩ := index_of_symbol hs
  exact List.mem_map.2 ⟨id.index, List.mem_range.2 hin, rfl⟩

end Model

theorem typeRecipe?_of_method {id : SymbolId} {s : Symbol} (h : m.IsMethod id s) :
    m.typeRecipe? id = none := by
  have hpointer : s.kind ≠ .pointer := by
    intro hp
    simp [Model.IsMethod, hp, SymbolKind.isMethod] at h
  simp [Model.typeRecipe?_eq h.1, ScopedUnit.isType_of_isMethod h.2, hpointer]

namespace ScopedUnit.Ended

variable {u : ScopedUnit} (h : u.Ended cx)

include h

/-- What may have to wait was made by a recipe of its own kind. -/
theorem origin {tree : TreeId} (hunit : u.unit = .source tree)
    (hfiles : ∀ path, c.entity = .file path →
      ∃ raw, path = slashed raw ∧ (raw = "" ∨ ∃ tree ∈ u.model.trees, tree.path = raw))
    {slot : Slot} (hc : .created slot c ∈ cx.events)
    (hwaits : c.entity.behavior = .noScope ∨ c.entity.behavior = .pushesScope) :
    ∃ recipe ∈ u.model.deferrable, c.entity.origin? = some recipe := by
  obtain ⟨l, en⟩ := c
  obtain ⟨recipe, rfl, hw, hy⟩ := h.founded.created _ _ _ hc
  unfold Model.deferrable
  cases recipe with
  | file path =>
    obtain rfl := hy
    obtain ⟨raw, heq, hraw⟩ := hfiles _ rfl
    refine ⟨.file (slashed raw), List.mem_append_right _ (List.mem_map.2 ⟨raw, ?_, rfl⟩), ?_⟩
    · simpa using hraw
    · simp [Entity.origin?, heq]
  | location place =>
    cases place with
    | none =>
      obtain ⟨f, -, rfl⟩ := hy
      simp [Entity.behavior] at hwaits
    | some place =>
      obtain ⟨tree, f, -, -, rfl⟩ := hy
      simp [Entity.behavior] at hwaits
  | assembly name => cases hunit.symm.trans hw
  | space id =>
    obtain ⟨s, parent, hs, -, rfl⟩ := hy
    have hid := Model.mem_symbolIds hs
    exact ⟨_, List.mem_append_left _ (List.mem_append_right _ (List.mem_map_of_mem hid)), rfl⟩
  | namedType id =>
    obtain ⟨s, t, hs, ht, rfl⟩ := hy
    obtain ⟨-, s', hw⟩ := hw
    have hrecipe := typeRecipe?_of_namedType hw
    refine ⟨.namedType id, List.mem_append_left _ (List.mem_append_left _ ?_), ?_⟩
    · exact List.mem_map.2 ⟨id, Model.mem_symbolIds hs, by simp [hrecipe]⟩
    · simp [Entity.origin?, ht.symbol]
  | pointer id =>
    obtain ⟨s, pointee, l', -, -, -, rfl⟩ := hy
    simp [Entity.behavior] at hwaits
  | method id =>
    obtain ⟨s, f, hs, hf, rfl⟩ := hy
    obtain ⟨-, s', hw⟩ := hw
    have hnone := typeRecipe?_of_method hw
    refine ⟨.method id, List.mem_append_left _ (List.mem_append_left _ ?_), ?_⟩
    · exact List.mem_map.2 ⟨id, Model.mem_symbolIds hs, by simp [hnone]⟩
    · simp [Entity.origin?, hf.symbol]

/-- A recipe makes one entity that may have to wait. -/
theorem origin_unique {slot slot' : Slot} (hc : .created slot c ∈ cx.events)
    (hc' : .created slot' c' ∈ cx.events) (ho : c.entity.origin? = some recipe)
    (ho' : c'.entity.origin? = some recipe) : c = c' := by
  obtain ⟨l, en⟩ := c
  obtain ⟨l', en'⟩ := c'
  have hkey : ∀ {en l l'}, .created .value ⟨l, en⟩ ∈ cx.events →
      .created .value ⟨l', en⟩ ∈ cx.events → l = l' := by
    intro en l l' hc hc'
    have hsame := (h.orderly.created _ _ hc).1
    exact congrArg Created.label (Option.some.inj (hsame.symm.trans (h.orderly.created _ _ hc').1))
  cases en with
  | file path =>
    cases en' <;> cases ho.trans ho'.symm
    obtain ⟨r, rfl, -, hy⟩ := h.founded.created _ _ _ hc
    obtain ⟨r', rfl, -, hy'⟩ := h.founded.created _ _ _ hc'
    obtain ⟨raw, rfl, -⟩ := hy.of_file
    obtain ⟨raw', rfl, -⟩ := hy'.of_file
    rw [hkey hc hc']
  | space id name parent =>
    cases en' <;> cases ho.trans ho'.symm
    obtain ⟨hc, -, s, hs, rfl, hp⟩ := h.space ⟨_, hc⟩
    obtain ⟨hc', -, s', hs', rfl, hp'⟩ := h.space ⟨_, hc'⟩
    obtain rfl := Except.ok.inj (hs.symm.trans hs')
    obtain rfl := hp.unique hp' fun _ _ _ ha ha' => ha.unique ha' h.orderly
    rw [hkey hc hc']
  | namedType t =>
    cases en' with
    | namedType t' =>
      have hid : t'.symbol = t.symbol := Recipe.namedType.inj (Option.some.inj (ho'.trans ho.symm))
      obtain ⟨r, rfl, -, hy⟩ := h.founded.created _ _ _ hc
      obtain ⟨r', rfl, -, hy'⟩ := h.founded.created _ _ _ hc'
      obtain ⟨id, s, rfl, hs, ht⟩ := hy.of_namedType
      obtain ⟨id', s', rfl, hs', ht'⟩ := hy'.of_namedType
      obtain rfl : id' = id := by rw [← ht.symbol, ← ht'.symbol, hid]
      exact h.orderly.object_unique hc hc'
    | _ => cases ho.trans ho'.symm
  | method f =>
    cases en' with
    | method f' =>
      have hid : f'.symbol = f.symbol := Recipe.method.inj (Option.some.inj (ho'.trans ho.symm))
      obtain ⟨r, rfl, -, hy⟩ := h.founded.created _ _ _ hc
      obtain ⟨r', rfl, -, hy'⟩ := h.founded.created _ _ _ hc'
      obtain ⟨id, s, rfl, hs, hf⟩ := hy.of_method
      obtain ⟨id', s', rfl, hs', hf'⟩ := hy'.of_method
      obtain rfl : id' = id := by rw [← hf.symbol, ← hf'.symbol, hid]
      exact h.orderly.object_unique hc hc'
    | _ => cases ho.trans ho'.symm
  | _ => cases ho

/-- So many descriptions are queued at most. -/
theorem enrolled_le (hn : Enrolled cx) {tree : TreeId} (hunit : u.unit = .source tree)
    (hfiles : ∀ slot c, .created slot c ∈ cx.events → ∀ path, c.entity = .file path →
      ∃ raw, path = slashed raw ∧ (raw = "" ∨ ∃ tree ∈ u.model.trees, tree.path = raw)) :
    cx.enrolled.length ≤ u.model.deferrable.length := by
  have horigin : ∀ c ∈ cx.enrolled, (∃ slot, .created slot c ∈ cx.events) ∧
      ∃ recipe ∈ u.model.deferrable, c.entity.origin? = some recipe := by
    intro c hc
    obtain ⟨slot, hslot⟩ := hn.created c hc
    exact ⟨⟨slot, hslot⟩, h.origin hunit (hfiles slot c hslot) hslot (hn.waits c hc)⟩
  have hsub : cx.enrolled.map (·.entity.origin?) ⊆ u.model.deferrable.map some := by
    intro o ho
    obtain ⟨c, hc, rfl⟩ := List.mem_map.1 ho
    obtain ⟨-, recipe, hmem, heq⟩ := horigin c hc
    exact List.mem_map.2 ⟨recipe, hmem, heq.symm⟩
  have hnodup : (cx.enrolled.map (·.entity.origin?)).Nodup := by
    refine List.pairwise_map.2 ((List.pairwise_map.1 hn.once).imp_of_mem ?_)
    intro c c' hc hc' hne heq
    obtain ⟨⟨slot, hslot⟩, recipe, -, ho⟩ := horigin c hc
    obtain ⟨⟨slot', hslot'⟩, -⟩ := horigin c' hc'
    exact hne (congrArg Created.label (h.origin_unique hslot hslot' ho (heq ▸ ho)))
  simpa using (List.Nodup.subperm hnodup hsub).length_le

end ScopedUnit.Ended

namespace TrapUnit

theorem eq_source_of_scope (hs : unit.scope x m = .ok scope) (ha : scope.isAssembly = false) :
    ∃ tree, unit = .source tree := by
  cases unit with
  | source tree => exact ⟨tree, rfl⟩
  | assembly name =>
    cases hs
    cases ha
  | compilation =>
    simp only [TrapUnit.scope] at hs
    split at hs
    · cases hs
      cases ha
    · cases hs
      cases ha

theorem exists_of_scope (hs : unit.scope x m = .ok scope) : unit.Exists m := by
  cases unit with
  | source tree =>
    simp only [TrapUnit.scope] at hs
    split at hs
    · next t ht => exact ⟨t, ht⟩
    · cases hs
  | _ => trivial

/-- The run of a unit is a course. -/
theorem runIn_course (unit : TrapUnit) (m : Model) (scope : Scope) (x : Extractor) (budget : Nat) :
    Course (.ofModel m scope) .any none { extractor := x }
      (unit.runIn m scope x budget).context :=
  World.run_course (World.locates_any _) budget (unit.program m scope) _

/-- A unit that runs out of turns has queued no more than what may wait in its model. -/
theorem enrolled_of_givesUp {budget : Nat} (hs : unit.scope x m = .ok scope)
    (hgives : (m.permissions scope room bonus may limits).GivesUp budget { extractor := x }
      (unit.runIn m scope x budget)) :
    (unit.runIn m scope x budget).context.enrolled.length ≤ m.deferrable.length := by
  have hkept := hgives.kept.events
  cases ha : scope.isAssembly with
  | true =>
    have hnone : (unit.runIn m scope x budget).context.enrolled = [] := by
      refine List.filterMap_eq_nil_iff.2 fun e he => ?_
      cases e with
      | queued number entity => cases ha.symm.trans (hkept _ he).2
      | _ => rfl
    simp [hnone]
  | false =>
    obtain ⟨tree, hunit⟩ := eq_source_of_scope hs ha
    have hended := finish_ended unit m scope x budget
    rw [finish_of_exhausted hgives.outcome] at hended
    refine hended.enrolled_le ((runIn_course unit m scope x budget).enrolled (.fresh x)) hunit ?_
    intro slot c hc path hpath
    obtain ⟨raw, heq, hraw⟩ := (hkept _ hc).2 path hpath
    rcases hraw with hraw | hraw
    · cases ha.symm.trans hraw
    · exact ⟨raw, heq, hraw⟩

/-- A unit has turns enough. -/
theorem runIn_enough (hp : Permits m scope unit room bonus may limits)
    (hs : unit.scope x m = .ok scope) (hx : x.config.maxRecursionDepth = room) :
    (m.permissions scope room bonus may limits).Ends (fun _ => True) { extractor := x }
      (unit.runIn m scope x m.drainBudget) := by
  rcases Model.runIn_ends hp x m.drainBudget hx with hends | hgives
  · exact hends
  · exfalso
    have hlength := enrolled_of_givesUp hs hgives
    have hturns := (Counted.fresh x).turns (runIn_course unit m scope x m.drainBudget).turns
    have hbacklog := hturns.enrolled fun number entity hq => (hgives.kept.events _ hq).1
    have htakings := hgives.takings
    have hwaiting := List.length_pos_iff.2 hgives.waiting
    rw [Model.length_deferrable] at hlength
    unfold Model.drainBudget at htakings hlength hbacklog hwaiting
    omega

/-- A unit runs to its end, or until it meets the limit. -/
theorem runIn_outcome (hp : Permits m scope unit room bonus may limits)
    (hs : unit.scope x m = .ok scope) (hx : x.config.maxRecursionDepth = room) :
    let ch := m.permissions scope room bonus may limits
    let r := unit.runIn m scope x m.drainBudget
    r.outcome = .done () ∧ ch.Kept r.context ∨
      r.outcome = .failed (.recursionLimit room) ∧ ch.Met r.context := by
  have hends := runIn_enough hp hs hx
  have hfailure := (runIn_goes unit m scope x m.drainBudget).failure
  have hexists : unit.Exists m := exists_of_scope hs
  intro ch r
  change ch.Ends _ _ r at hends
  change ∀ e, r.outcome = .failed e → _ at hfailure
  clear_value r
  cases hends with
  | done hk => exact .inl ⟨rfl, hk⟩
  | @failed e _ _ _ he =>
    have hminor : e.isFatal = false := (Model.permissions_hold hp).minor he
    exact absurd hexists (hfailure e rfl hminor)
  | met hm => exact .inr ⟨congrArg (Outcome.failed ∘ Failure.recursionLimit) hx, hm⟩

end TrapUnit

end TrapFacts
