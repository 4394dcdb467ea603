import TrapFacts.Proofs.Unit.Shallow

/-! An assembly is extracted within a limit that depends on how many symbols there are: in its trap
each description may be nested in another one. -/

namespace TrapFacts

variable {m : Model} {scope : Scope} {x : Extractor} {longest room : Nat} {cx : Context}
  {recipe : Recipe} {id : SymbolId} {name : String} {unit : TrapUnit}

def Event.object? : Event → Option Source
  | .created (.object _ source) _ => some source
  | _ => none

theorem Context.made_eq (cx : Context) : cx.made = (cx.events.filterMap Event.object?).length := by
  rw [List.length_filterMap_eq_countP]
  refine List.countP_congr fun e _ => ?_
  cases e with
  | created slot c => cases slot <;> simp [Event.isObject, Event.object?]
  | _ => simp [Event.isObject, Event.object?]

/-- The recipe of a symbol that is an object: each symbol has one at most. -/
def Model.objectRecipe (m : Model) (id : SymbolId) : Recipe :=
  (m.typeRecipe? id).getD (.method id)

namespace ScopedUnit

variable {u : ScopedUnit}

/-- What has an object within reach is one of the symbols of the model. -/
theorem Within.object {type : EntityType} {source : Source} (hw : u.Within recipe)
    (hslot : recipe.slot = .object type source) :
    ∃ id ∈ u.model.symbolIds, source = .symbol id ∧ recipe = u.model.objectRecipe id := by
  unfold Model.objectRecipe
  cases recipe with
  | file | location | assembly | space => cases hslot
  | namedType id =>
    obtain ⟨-, s, hs⟩ := hw
    cases hslot
    exact ⟨id, Model.mem_symbolIds hs.1, rfl, by rw [typeRecipe?_of_namedType hs]; rfl⟩
  | pointer id =>
    obtain ⟨-, s, hs⟩ := hw
    cases hslot
    exact ⟨id, Model.mem_symbolIds hs.1, rfl, by rw [typeRecipe?_of_pointer hs]; rfl⟩
  | method id =>
    obtain ⟨-, s, hs⟩ := hw
    cases hslot
    exact ⟨id, Model.mem_symbolIds hs.1, rfl, by rw [typeRecipe?_of_method hs]; rfl⟩

/-- No more entities are made of objects than there are symbols. -/
theorem Ended.made_le (h : u.Ended cx) : cx.made ≤ u.model.symbols.length := by
  have hobject : ∀ {type source c}, .created (.object type source) c ∈ cx.events →
      ∃ id ∈ u.model.symbolIds, source = .symbol id ∧
        .object type source = (u.model.objectRecipe id).slot := by
    intro type source c hc
    obtain ⟨recipe, hslot, hw, -⟩ := h.founded.created _ _ _ hc
    obtain ⟨id, hid, hsource, rfl⟩ := hw.object hslot.symm
    exact ⟨id, hid, hsource, hslot⟩
  have hcreated : ∀ {e : Event} {source : Source}, e.object? = some source →
      ∃ type c, e = .created (.object type source) c := by
    intro e source he
    cases e with
    | created slot c =>
      cases slot with
      | value => cases he
      | object type _ =>
        obtain rfl := Option.some.inj he
        exact ⟨type, c, rfl⟩
    | _ => cases he
  have hsub : cx.events.filterMap Event.object? ⊆ u.model.symbolIds.map Source.symbol := by
    intro source hsource
    obtain ⟨e, he, hmade⟩ := List.mem_filterMap.1 hsource
    obtain ⟨type, c, rfl⟩ := hcreated hmade
    obtain ⟨id, hid, rfl, -⟩ := hobject he
    exact List.mem_map_of_mem hid
  have hnodup : (cx.events.filterMap Event.object?).Nodup := by
    refine List.pairwise_filterMap.2 (h.orderly.order.imp_of_mem ?_)
    rintro e e' he he' hallows source hsource source' hsource' rfl
    obtain ⟨type, c, rfl⟩ := hcreated hsource
    obtain ⟨type', c', rfl⟩ := hcreated hsource'
    obtain ⟨id, -, rfl, hslot⟩ := hobject he
    obtain ⟨id', -, hid, hslot'⟩ := hobject he'
    obtain rfl := Source.symbol.inj hid
    obtain ⟨rfl, -⟩ := Slot.object.inj (hslot.trans hslot'.symm)
    obtain rfl := h.orderly.object_unique he he'
    obtain ⟨record, hwrote⟩ := hallows rfl
    cases hwrote
  have hlength := (List.Nodup.subperm hnodup hsub).length_le
  simpa [cx.made_eq, Model.symbolIds] using hlength

end ScopedUnit

namespace TrapUnit

theorem objects_of_pushes (hb : recipe.behavior = .pushesScope) : recipe.slot.objects = 1 := by
  cases recipe <;> first | rfl | cases hb

/-- A longest path for each symbol, one more, and three levels are enough for an assembly. Each new
object is worth a longest path, as its description may be nested in that of another one. -/
theorem permits_spacious (hlongest : ∀ path, m.IsPath path → path.length ≤ longest)
    (hroom : m.symbols.length * longest + longest + 3 ≤ room) (ha : scope.isAssembly = true) :
    Permits m scope (assembly name) room longest
      (m.Affords scope longest fun _ _ => m.symbols.length * longest)
      (fun made => m.symbols.length < made) where
  grows hn h := h.mono hn
  spare h := by
    obtain ⟨-, k, hk, hshallow⟩ := h
    cases k with
    | zero => exact hshallow.elim
    | succ k =>
      dsimp only at hk
      rw [Nat.mul_comm m.symbols.length] at hk
      exact Nat.lt_of_mul_lt_mul_left (show longest * m.symbols.length < longest * _ by omega)
  files h := h.1
  needs h hn := h.needs hn (Nat.le_refl _)
  offers h hd ho := by
    rw [ha]
    rcases hd.pushes_or_assembly with hb | ⟨-, assembly, rfl⟩
    · obtain ⟨hpos, hleft⟩ := h.left hlongest hb
      rw [objects_of_pushes hb, Nat.mul_one]
      exact .offered hlongest (by omega) (fun _ => by omega) ho
    · obtain ⟨-, k, hk, hshallow⟩ := h
      cases k with
      | zero => exact hshallow.elim
      | succ k =>
        dsimp only at hk
        have hspace : longest + 1 < k := hshallow
        exact .offered hlongest (by omega) (fun _ => by omega) ho
  place h hb := by
    obtain ⟨hpos, hleft⟩ := h.left hlongest hb
    rw [objects_of_pushes hb, Nat.mul_one]
    exact .place (by omega)
  queued ho := .offered hlongest (by omega) (fun _ => by omega) ho
  queuedPlace := .place (by omega)
  starts h := by
    obtain rfl := h
    refine ⟨ha, longest + 3, ?_, Nat.lt_succ_self _⟩
    dsimp only
    omega

/-- An assembly is extracted if the limit leaves room for as many longest paths as there are
symbols, one more, and three levels. -/
theorem extract_spacious (hlongest : ∀ path, m.IsPath path → path.length ≤ longest)
    (hlimit : m.symbols.length * longest + longest + 3 ≤ x.config.maxRecursionDepth)
    (name : String) :
    ∃ e y, (assembly name).extract x m = .ok (e, y) ∧ e.status = .extracted := by
  have hs : (assembly name).scope x m = .ok (.assembly name (assemblyPath x m name)) := rfl
  refine ⟨_, _, extract_finish hs _, ?_⟩
  rcases runIn_outcome (permits_spacious hlongest hlimit rfl) hs rfl with ⟨hdone, -⟩ | ⟨-, hmet⟩
  · exact congrArg Prod.fst (conclude_done hdone)
  · exfalso
    obtain ⟨before, closing, hevents, -, hmade, -⟩ := hmet
    let cx := ((assembly name).finish m (.assembly name (assemblyPath x m name)) x m.drainBudget).2
    have hbefore : before <+: cx.events := by
      refine conclude_keeps (P := fun cx => before <+: cx.events) m name ?_ fun cx message h => ?_
      · exact hevents ▸ List.prefix_append _ _
      · exact h.trans (Frame.send cx message none).events
    have hle : cx.made ≤ m.symbols.length := (finish_ended _ _ _ _ _).made_le
    have hcount := hbefore.sublist.countP_le (p := Event.isObject)
    exact absurd (Nat.lt_of_lt_of_le hmade (Nat.le_trans hcount hle)) (Nat.lt_irrefl _)

/-- A class with a method that returns it. -/
theorem extract_spacious_method :
    let m : Model := {
      assemblies := [{ name := "a", path := "a.dll" }]
      symbols := [
        { name := "C", kind := .classType, containingAssembly := some "a", members := [⟨1⟩] },
        { name := "f", kind := .method, containingAssembly := some "a", containingType := some ⟨0⟩,
          returnType := some ⟨0⟩ }] }
    let x : Extractor := { config := { maxRecursionDepth := 9 } }
    (∀ path, m.IsPath path → path.length ≤ 2) ∧
      m.symbols.length * 2 + 2 + 3 ≤ x.config.maxRecursionDepth ∧
      ∃ e y, (assembly "a").extract x m = .ok (e, y) ∧ e.status = .extracted := by
  intro m x
  have hlinks : ∀ a b, m.Links a b → a.index = 1 ∧ ¬ b.index = 1 := by
    rintro ⟨i⟩ b ⟨s, hs, hl⟩
    obtain rfl | rfl | hi : i = 0 ∨ i = 1 ∨ 2 ≤ i := by omega
    · cases hs
      simp [Symbol.constructedFrom?] at hl
    · cases hs
      obtain rfl : b = ⟨0⟩ := by simpa [Symbol.constructedFrom?, eq_comm] using hl
      simp
    · have hin : i < 2 := (Model.index_of_symbol hs).1
      omega
  have hpaths : ∀ path, m.IsPath path → path.length ≤ 2 := fun _ h => h.length_le_two hlinks
  have hlimit : m.symbols.length * 2 + 2 + 3 ≤ x.config.maxRecursionDepth := by decide
  exact ⟨hpaths, hlimit, extract_spacious hpaths hlimit "a"⟩

end TrapUnit

end TrapFacts
