import TrapFacts.Proofs.Engine.Budget
import TrapFacts.Proofs.Unit.Aborted

/-! Every unit comes to an end, and no bound that keeps the definitions total shows in it. -/

namespace TrapFacts

variable {m : Model} {scope : Scope} {unit : TrapUnit} {x : Extractor} {cx : Context}
  {en : Entity} {l : Label} {slot : Slot} {id : SymbolId}

def Entity.object? : Entity → Option SymbolId
  | namedType t => some t.symbol
  | pointer id _ => some id
  | method f => some f.symbol
  | _ => none

/-- The symbol of the type or the method that an event begins to describe. -/
def Event.populated? : Event → Option SymbolId
  | .populating en _ => en.object?
  | _ => none

theorem Prog.each_congr {α : Type} {items : List α} {body body' : α → Prog Unit}
    (h : ∀ a ∈ items, body a = body' a) : Prog.each items body = Prog.each items body' := by
  induction items with
  | nil => rfl
  | cons a rest ih =>
    rw [each, each, h a List.mem_cons_self, ih fun a ha => h a (List.mem_cons_of_mem _ ha)]

/-- Where no namespace holds itself, a visit goes no deeper than the table is long: the namespaces
that were visited before are all different. -/
theorem visitSymbol_congr (hacyclic : ∀ a, ¬ Relation.TransGen m.Holds a a) {depth depth' : Nat}
    {seen : List SymbolId} (hn : seen.Nodup)
    (hseen : ∀ a ∈ seen, (∃ s, m.symbol a = .ok s) ∧ Relation.TransGen m.Holds a id)
    (hd : m.symbols.length < depth + seen.length) (hd' : m.symbols.length < depth' + seen.length) :
    visitSymbol m scope depth id = visitSymbol m scope depth' id := by
  have hlength := Model.length_le_of_nodup hn fun a ha => (hseen a ha).1
  induction depth generalizing depth' seen id with
  | zero => omega
  | succ depth ih =>
    obtain ⟨depth', rfl⟩ : ∃ d, depth' = d + 1 := Nat.exists_eq_add_of_le' (by omega)
    unfold visitSymbol
    cases hs : m.symbol id with
    | error e => rfl
    | ok s =>
      change (if s.kind = .space then _ else _) = if s.kind = .space then _ else _
      by_cases hk : s.kind = .space
      · rw [if_pos hk, if_pos hk]
        have hnew : id ∉ seen := fun ha => hacyclic id (hseen id ha).2
        have hn' := List.nodup_cons.2 ⟨hnew, hn⟩
        have hmembers : ∀ member ∈ s.members,
            visitSymbol m scope depth member = visitSymbol m scope depth' member := by
          intro member hm
          have hholds : m.Holds id member := ⟨s, hs, hk, hm⟩
          have hseen' : ∀ a ∈ id :: seen,
              (∃ s, m.symbol a = .ok s) ∧ Relation.TransGen m.Holds a member := by
            intro a ha
            rcases List.mem_cons.1 ha with rfl | ha
            · exact ⟨⟨s, hs⟩, .single hholds⟩
            · exact ⟨(hseen a ha).1, (hseen a ha).2.tail hholds⟩
          refine ih hn' hseen' ?_ ?_ (Model.length_le_of_nodup hn' fun a ha => (hseen' a ha).1)
          · rw [List.length_cons]
            omega
          · rw [List.length_cons]
            omega
        congr 1
        funext _
        refine Prog.each_congr fun member hm => ?_
        rw [hmembers member hm]
      · rw [if_neg hk, if_neg hk]

/-- A visit with more room than the table is long is the same. -/
theorem visitSymbol_eq (hacyclic : ∀ a, ¬ Relation.TransGen m.Holds a a) {depth : Nat}
    (hd : m.symbols.length < depth) (id : SymbolId) :
    visitSymbol m scope depth id = extractSymbol m scope id :=
  visitSymbol_congr hacyclic List.nodup_nil (by simp) (by simpa using hd) (by simp)

namespace ScopedUnit

variable {u : ScopedUnit}

/-- A symbol is made an entity in one way. -/
theorem Founded.object (h : u.Founded cx) (hc : .created slot ⟨l, en⟩ ∈ cx.events)
    (ho : en.object? = some id) : ∃ recipe, slot = Recipe.slot recipe ∧
      (recipe = .namedType id ∧ (∃ s, u.model.IsNamedType id s) ∨
        recipe = .pointer id ∧ (∃ s, u.model.IsPointer id s) ∨
        recipe = .method id ∧ ∃ s, u.model.IsMethod id s) := by
  obtain ⟨recipe, rfl, hw, hy⟩ := h.created _ _ _ hc
  refine ⟨recipe, rfl, ?_⟩
  cases recipe with
  | namedType id' =>
    obtain ⟨s, t, -, hstands, rfl⟩ := hy
    obtain rfl : id' = id := hstands.symbol.symm.trans (Option.some.inj ho)
    exact .inl ⟨rfl, hw.2⟩
  | pointer id' =>
    obtain ⟨s, pointee, l', -, -, -, rfl⟩ := hy
    obtain rfl : id' = id := Option.some.inj ho
    exact .inr (.inl ⟨rfl, hw.2⟩)
  | method id' =>
    obtain ⟨s, f, -, hstands, rfl⟩ := hy
    obtain rfl : id' = id := hstands.symbol.symm.trans (Option.some.inj ho)
    exact .inr (.inr ⟨rfl, hw.2⟩)
  | file path =>
    obtain rfl := hy
    cases ho
  | location place =>
    cases place with
    | none =>
      obtain ⟨_, _, rfl⟩ := hy
      cases ho
    | some place =>
      obtain ⟨_, _, _, _, rfl⟩ := hy
      cases ho
  | assembly name =>
    obtain ⟨_, _, _, rfl⟩ := hy
    cases ho
  | space id' =>
    obtain ⟨_, _, _, _, rfl⟩ := hy
    cases ho

/-- A symbol is given one label, as a type or as a method. -/
theorem Founded.object_unique (h : u.Founded cx) (ho : Orderly cx) {slot' : Slot} {l' : Label}
    {en' : Entity} (hc : .created slot ⟨l, en⟩ ∈ cx.events)
    (hc' : .created slot' ⟨l', en'⟩ ∈ cx.events) (hid : en.object? = some id)
    (hid' : en'.object? = some id) : l = l' := by
  obtain ⟨recipe, rfl, hr⟩ := h.object hc hid
  obtain ⟨recipe', rfl, hr'⟩ := h.object hc' hid'
  have hrecipe : recipe = recipe' := by
    rcases hr with ⟨rfl, s, hs, hk, hp⟩ | ⟨rfl, s, hs, hk⟩ | ⟨rfl, s, hs, hk⟩ <;>
      rcases hr' with ⟨rfl, s', hs', hk', hp'⟩ | ⟨rfl, s', hs', hk'⟩ | ⟨rfl, s', hs', hk'⟩ <;>
        obtain rfl : s = s' := Except.ok.inj (hs.symm.trans hs')
    all_goals first
      | rfl
      | exact absurd hk' hp
      | exact absurd hk hp'
      | simp_all [isType_of_isMethod, SymbolKind.isMethod]
  obtain rfl := hrecipe
  rcases hr with ⟨rfl, -⟩ | ⟨rfl, -⟩ | ⟨rfl, -⟩ <;>
    exact congrArg Created.label (ho.object_unique hc hc')

/-- No symbol is described twice. -/
theorem Founded.populated_once (h : u.Founded cx) (hs : Sound [] cx) :
    (cx.events.filterMap Event.populated?).Nodup := by
  have hlabels : (cx.described.map Prod.snd).Nodup := by
    have honce := hs.accounted.once
    rw [account, List.map_append] at honce
    exact (List.nodup_append.1 honce).2.1
  have hsymbols : cx.events.filterMap Event.populated? =
      cx.described.filterMap fun d => d.1.object? := by
    rw [Context.described, List.filterMap_filterMap]
    refine List.filterMap_congr fun e _ => ?_
    cases e <;> rfl
  have hcreated : ∀ d ∈ cx.described, ∃ slot, .created slot ⟨d.2, d.1⟩ ∈ cx.events :=
    fun d hd => hs.accounted.created d (List.mem_append_right _ hd)
  rw [hsymbols]
  refine List.pairwise_filterMap.2 ((List.pairwise_map.1 hlabels).imp_of_mem ?_)
  rintro d d' hd hd' hne id hid _ hid' rfl
  obtain ⟨slot, hc⟩ := hcreated d hd
  obtain ⟨slot', hc'⟩ := hcreated d' hd'
  exact hne (h.object_unique hs.orderly hc hc' hid hid')

end ScopedUnit

namespace TrapUnit

/-- How a unit runs: to the end of its queue, or until it meets the limit of its depth. -/
structure Terminates (unit : TrapUnit) (m : Model) (scope : Scope) (x : Extractor)
    (r : Reply Unit) :
    Prop where
  outcome : r.outcome = .done () ∧ r.context.queue = [] ∨
    r.outcome = .failed (.recursionLimit x.config.maxRecursionDepth)
  /-- No larger budget changes the run. -/
  budget : ∀ budget, m.drainBudget ≤ budget → unit.runIn m scope x budget = r
  /-- Nested creations go no deeper than the limit. -/
  depth : ∀ now ∈ r.context.moments, now.depth ≤ x.config.maxRecursionDepth
  /-- No type or method is described twice. -/
  once : (r.context.events.filterMap Event.populated?).Nodup
  /-- No visit is cut short. -/
  visits : ∀ depth id, m.symbols.length < depth →
    visitSymbol m scope depth id = extractSymbol m scope id

/-- Where no namespace holds itself every unit is extracted in so many turns, whatever circles the
types and methods of the model run in. -/
theorem extract_terminates (hacyclic : ∀ a, ¬ Relation.TransGen m.Holds a a) (unit : TrapUnit)
    (x : Extractor) :
    (∀ budget, m.drainBudget ≤ budget → unit.extract x m budget = unit.extract x m) ∧
      ∀ scope, unit.scope x m = .ok scope →
        unit.Terminates m scope x (unit.runIn m scope x m.drainBudget) := by
  have hbudget : ∀ scope, unit.scope x m = .ok scope → ∀ budget, m.drainBudget ≤ budget →
      unit.runIn m scope x budget = unit.runIn m scope x m.drainBudget := by
    intro scope hs budget hb
    rcases World.run_upheld (w := .ofModel m scope) hb (unit.program m scope)
      { extractor := x } with hexhausted | hsame
    · rcases runIn_outcome (permits_all hs _) hs rfl with ⟨hdone, -⟩ | ⟨hfailed, -⟩
      · cases hdone.symm.trans hexhausted
      · cases hfailed.symm.trans hexhausted
    · exact hsame
  constructor
  · intro budget hb
    unfold extract
    cases hs : unit.scope x m with
    | error e => rfl
    | ok scope => simp only [finish, hbudget scope hs budget hb]
  · intro scope hs
    let u : ScopedUnit := ⟨m, scope, unit, fun _ => True⟩
    have ht := (u.runIn_goes (closed_univ m scope unit) x m.drainBudget).trail
    exact {
      outcome := by
        rcases runIn_outcome (permits_all hs _) hs rfl with ⟨hdone, -⟩ | ⟨hfailed, -⟩
        · exact .inl ⟨hdone, runIn_queue unit m scope x _ (by rw [hdone]; rfl)⟩
        · exact .inr hfailed
      budget := hbudget scope hs
      depth := fun now hnow => by
        obtain ⟨during, hsteady⟩ := ht.free.steady (Nat.zero_le _) (Nat.le_refl _)
        obtain ⟨past, later, rfl⟩ : ∃ past later, during = past ++ now :: later := by
          refine List.append_of_mem ?_
          rw [show _ = during from hsteady.moments] at hnow
          exact hnow
        exact hsteady.inStep.now.1
      once := (ht.founded (u.founded_fresh x) (by simp)).populated_once
        (ht.free.sound ⟨orderly_fresh x, accounted_fresh x⟩)
      visits := fun depth id hd => visitSymbol_eq hacyclic hd id }

section

attribute [local irreducible] String.decEq

/-- Two classes that contain each other. -/
theorem extract_terminates_circle :
    let m : Model := {
      trees := [{ path := "a.cs", members := [⟨0⟩] }]
      symbols := [
        { name := "C", kind := .classType, containingType := some ⟨1⟩ },
        { name := "D", kind := .classType, containingType := some ⟨0⟩ }] }
    let x : Extractor := { config := { maxRecursionDepth := 3 } }
    let scope : Scope := .source ⟨0⟩ "a.cs"
    (∀ a, ¬ Relation.TransGen m.Holds a a) ∧
      (∀ budget, m.drainBudget ≤ budget →
        (source ⟨0⟩).extract x m budget = (source ⟨0⟩).extract x m) ∧
      (source ⟨0⟩).Terminates m scope x ((source ⟨0⟩).runIn m scope x m.drainBudget) ∧
      ((source ⟨0⟩).runIn m scope x m.drainBudget).outcome = .failed (.recursionLimit 3) := by
  intro m x scope
  have hholds : ∀ a b, ¬ m.Holds a b := by
    rintro ⟨a⟩ b ⟨s, hs, hk, hb⟩
    match a with
    | 0 | 1 => cases hs; cases hk
    | a + 2 => cases hs
  have hacyclic : ∀ a, ¬ Relation.TransGen m.Holds a a := by
    intro a h
    obtain ⟨b, hab, -⟩ := Relation.TransGen.head'_iff.1 h
    exact hholds a b hab
  obtain ⟨hextract, hterminates⟩ := extract_terminates hacyclic (source ⟨0⟩) x
  have houtcome : ((source ⟨0⟩).runIn m scope x m.drainBudget).outcome =
      .failed (.recursionLimit 3) := by cbv
  exact ⟨hacyclic, hextract, hterminates scope rfl, houtcome⟩

end

end TrapUnit

end TrapFacts
