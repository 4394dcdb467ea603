import Mathlib
import TrapFacts.Proofs.Engine.Identity
import TrapFacts.Proofs.Model.Naming
import TrapFacts.Proofs.Unit.Described
import TrapFacts.Proofs.Unit.Keys
import TrapFacts.Proofs.Unit.Underway

/-! A unit in which nothing goes wrong labels what it has reason to reach, and nothing else. -/

namespace TrapFacts

variable {u : ScopedUnit} {m : Model} {scope : Scope} {x : Extractor} {unit : TrapUnit}
  {cx : Context}
  {en : Entity} {l : Label} {slot : Slot} {id : SymbolId} {s : Symbol} {budget : Nat}

/-- A symbol that received a label. -/
def Context.Given (cx : Context) (id : SymbolId) : Prop :=
  ∃ type c, .created (.object type (.symbol id)) c ∈ cx.events

theorem Context.mem_sent {message : Message} {about : Option Concern}
    (h : .sent message about ∈ cx.events) : message ∈ cx.sent := by
  obtain ⟨now, hnow, he⟩ := List.mem_map.1 h
  exact List.mem_filterMap.2 ⟨now, hnow, by simp [he]⟩

namespace Model

/-- Where no namespace holds itself, a visit comes to everything on its way: the namespaces that
were visited before are all different. -/
theorem visitsWithin (hacyclic : ∀ a, ¬ Relation.TransGen m.Holds a a) {b : SymbolId}
    {seen : List SymbolId} (hn : seen.Nodup)
    (hseen : ∀ a ∈ seen, (∃ s, m.symbol a = .ok s) ∧ Relation.TransGen m.Holds a id)
    (h : Relation.ReflTransGen (m.Visits scope) id b) :
    m.VisitsWithin scope (m.symbols.length + 1 - seen.length) id b := by
  induction h using Relation.ReflTransGen.head_induction_on generalizing seen with
  | refl =>
    have hlength := length_le_of_nodup hn fun a ha => (hseen a ha).1
    rw [show m.symbols.length + 1 - seen.length = m.symbols.length - seen.length + 1 by omega]
    exact .inl rfl
  | @head a c hv _ ih =>
    have ⟨s, hs, _, _⟩ := hv.1
    have hnew : a ∉ seen := fun ha => hacyclic a (hseen a ha).2
    have hseen' : ∀ a' ∈ a :: seen,
        (∃ s, m.symbol a' = .ok s) ∧ Relation.TransGen m.Holds a' c := by
      intro a' ha'
      rcases List.mem_cons.1 ha' with rfl | ha'
      · exact ⟨⟨s, hs⟩, .single hv.1⟩
      · exact ⟨(hseen a' ha').1, (hseen a' ha').2.tail hv.1⟩
    have hn' := List.nodup_cons.2 ⟨hnew, hn⟩
    have hlength := length_le_of_nodup hn' fun a' ha' => (hseen' a' ha').1
    have hrest := ih hn' hseen'
    rw [List.length_cons] at hlength hrest
    rw [show m.symbols.length + 1 - seen.length =
      m.symbols.length + 1 - (seen.length + 1) + 1 by omega]
    exact .inr ⟨c, hv, hrest⟩

/-- A type has one label. -/
theorem TypeAt.created (h : m.TypeAt cx id l) (ho : Orderly cx) :
    ∃ recipe made, m.typeRecipe? id = some recipe ∧ .created recipe.slot ⟨l, made⟩ ∈ cx.events := by
  obtain ⟨recipe, hr, c, hc, rfl⟩ := h
  obtain ⟨made, hm, -⟩ := ho.same _ _ _ (ho.served _ c hc)
  exact ⟨recipe, made, hr, hm⟩

/-- A type that was made was given a label. -/
theorem TypeAt.given (h : m.TypeAt cx id l) (ho : Orderly cx) : cx.Given id := by
  obtain ⟨recipe, made, hr, hc⟩ := h.created ho
  obtain ⟨type, hslot⟩ := typeRecipe?_slot hr
  exact ⟨type, _, hslot ▸ hc⟩

/-- A label stands for one type. -/
theorem TypeAt.unique {id' : SymbolId} (h : m.TypeAt cx id l) (h' : m.TypeAt cx id' l)
    (ho : Orderly cx) : id = id' := by
  obtain ⟨recipe, made, hr, hc⟩ := h.created ho
  obtain ⟨recipe', made', hr', hc'⟩ := h'.created ho
  obtain ⟨type, hslot⟩ := typeRecipe?_slot hr
  obtain ⟨type', hslot'⟩ := typeRecipe?_slot hr'
  have hsame := (ho.created_unique hc hc' rfl).1
  rw [hslot, hslot'] at hsame
  cases hsame
  rfl

end Model

theorem Context.Reached.given (h : cx.Reached id) (ho : Orderly cx) : cx.Given id := by
  obtain ⟨type, c, hc⟩ := h
  obtain ⟨made, hm, -⟩ := ho.same _ _ _ (ho.served _ c hc)
  exact ⟨type, _, hm⟩

/-- When nothing waits, an entity is described, or else its place is missing and that was
reported. -/
theorem Histories.ended (h : Histories m false [] cx) (hq : cx.queue = [])
    (hc : .created slot ⟨l, en⟩ ∈ cx.events) : .populating en l ∈ cx.events ∨
      ∃ tree, m.strayTree? en = some tree ∧
        .sent (m.strayReport tree en) (some (.failure l)) ∈ cx.events := by
  have hm := Context.mem_history hc rfl
  have hin : ∀ e ∈ cx.history l, e ∈ cx.events := fun e he => (List.mem_filter.1 he).1
  have hbegun : ∀ slot en, cx.history l ≠ beginning slot en l := h.not_begun hq
  have hh := h.history l
  generalize cx.history l = es at hm hin hbegun hh
  cases hh with
  | unknown | fresh => simp [rowEvent] at hm
  | begun slot en => exact absurd rfl (hbegun slot en)
  | described =>
    simp only [beginning, rowEvent, List.cons_append, List.nil_append, List.mem_cons,
      List.mem_map] at hm
    obtain ⟨-, rfl⟩ : _ ∧ en = _ := by simpa using hm
    exact .inl (hin _ (by simp [beginning]))
  | @givenUp slot en' tree hp =>
    obtain ⟨-, rfl⟩ : _ ∧ en = en' := by simpa [beginning] using hm
    exact .inr ⟨tree, hp, hin _ (by simp)⟩

/-- When nothing waits and nothing went wrong, every entity is described. -/
theorem Histories.populating (h : Histories m false [] cx) (hq : cx.queue = []) (herr : ¬ cx.Erred)
    (hc : .created slot ⟨l, en⟩ ∈ cx.events) : .populating en l ∈ cx.events := by
  refine (h.ended hq hc).resolve_right ?_
  rintro ⟨tree, -, hsent⟩
  refine herr ⟨m.strayReport tree en, some (.failure l), hsent, ?_⟩
  rw [← Model.strayReport_eq]
  exact m.severity_failureMessage _ _ _

namespace ScopedUnit

/-- Symbols are labelled as what they are. -/
theorem Founded.recipe {type : EntityType} (h : u.Founded cx)
    (hc : .created (.object type (.symbol id)) ⟨l, en⟩ ∈ cx.events) :
    ∃ recipe, (recipe = .namedType id ∨ recipe = .pointer id ∨ recipe = .method id) ∧
      recipe.slot = .object type (.symbol id) ∧ u.Within recipe ∧ recipe.Yields u.model en cx := by
  obtain ⟨recipe, hslot, hw, hy⟩ := h.created _ _ _ hc
  refine ⟨recipe, ?_, hslot.symm, hw, hy⟩
  cases recipe <;> simp_all [Recipe.slot]

/-- What was given a label was within reach. -/
theorem Founded.within (h : u.Founded cx) (hg : cx.Given id) : u.within id := by
  obtain ⟨type, c, hc⟩ := hg
  obtain ⟨recipe, rfl | rfl | rfl, -, hw, -⟩ := h.recipe hc <;> exact hw.1

theorem isType_of_isMethod {k : SymbolKind} (h : k.isMethod = true) : k.isType = false := by
  cases k <;> simp_all [SymbolKind.isMethod, SymbolKind.isType, SymbolKind.typeNumber?]

theorem Founded.namedType_of_created {type : EntityType} (h : u.Founded cx)
    (hc : .created (.object type (.symbol id)) ⟨l, en⟩ ∈ cx.events)
    (hs : u.model.IsNamedType id s) :
    type = .namedType ∧ ∃ t, en = .namedType t ∧ NamedType.Stands u.model cx id t s := by
  obtain ⟨hid, ht, hk⟩ := hs
  obtain ⟨recipe, rfl | rfl | rfl, hslot, ⟨-, s', hw⟩, hy⟩ := h.recipe hc
  · cases hslot
    obtain ⟨s'', t, hs'', hstands, rfl⟩ := hy
    obtain rfl : s = s'' := Except.ok.inj (hid.symm.trans hs'')
    exact ⟨rfl, t, rfl, hstands⟩
  · obtain rfl : s = s' := Except.ok.inj (hid.symm.trans hw.1)
    exact absurd hw.2 hk
  · obtain rfl : s = s' := Except.ok.inj (hid.symm.trans hw.1)
    exact absurd ht (by simp [isType_of_isMethod hw.2])

/-- A type that was given a label stands for its symbol. -/
theorem Founded.namedType (h : u.Founded cx) (hg : cx.Given id) (hs : u.model.IsNamedType id s) :
    ∃ t l, .created (.object .namedType (.symbol id)) ⟨l, .namedType t⟩ ∈ cx.events ∧
      NamedType.Stands u.model cx id t s := by
  obtain ⟨type, ⟨l, en⟩, hc⟩ := hg
  obtain ⟨rfl, t, rfl, hstands⟩ := h.namedType_of_created hc hs
  exact ⟨t, l, hc, hstands⟩

theorem Founded.pointee {p : SymbolId} (h : u.Founded cx) (hg : cx.Given id)
    (hs : u.model.IsPointer id s) (hp : s.pointedAt = some p) : ∃ l, u.model.TypeAt cx p l := by
  obtain ⟨type, ⟨l, en⟩, hc⟩ := hg
  obtain ⟨hid, hk⟩ := hs
  obtain ⟨recipe, rfl | rfl | rfl, hslot, ⟨-, s', hw⟩, hy⟩ := h.recipe hc
  · obtain rfl : s = s' := Except.ok.inj (hid.symm.trans hw.1)
    exact absurd hk hw.2.2
  · obtain ⟨s'', p', l', hs'', hp', ht, rfl⟩ := hy
    obtain rfl : s = s'' := Except.ok.inj (hid.symm.trans hs'')
    obtain rfl : p = p' := Option.some.inj (hp.symm.trans hp')
    exact ⟨l', ht⟩
  · obtain rfl : s = s' := Except.ok.inj (hid.symm.trans hw.1)
    exact absurd hw.2 (by simp [hk, SymbolKind.isMethod])

theorem Founded.method_of_created {type : EntityType} (h : u.Founded cx)
    (hc : .created (.object type (.symbol id)) ⟨l, en⟩ ∈ cx.events) (hs : u.model.IsMethod id s) :
    type = .method ∧ ∃ f, en = .method f ∧ Method.Stands u.model cx id f s := by
  obtain ⟨hid, hk⟩ := hs
  obtain ⟨recipe, rfl | rfl | rfl, hslot, ⟨-, s', hw⟩, hy⟩ := h.recipe hc
  · obtain rfl : s = s' := Except.ok.inj (hid.symm.trans hw.1)
    exact absurd hw.2.1 (by simp [isType_of_isMethod hk])
  · obtain rfl : s = s' := Except.ok.inj (hid.symm.trans hw.1)
    simp [hw.2, SymbolKind.isMethod] at hk
  · cases hslot
    obtain ⟨s'', f, hs'', hstands, rfl⟩ := hy
    obtain rfl : s = s'' := Except.ok.inj (hid.symm.trans hs'')
    exact ⟨rfl, f, rfl, hstands⟩

/-- A method that was given a label stands for its symbol. -/
theorem Founded.method (h : u.Founded cx) (hg : cx.Given id) (hs : u.model.IsMethod id s) :
    ∃ f l, .created (.object .method (.symbol id)) ⟨l, .method f⟩ ∈ cx.events ∧
      Method.Stands u.model cx id f s := by
  obtain ⟨type, ⟨l, en⟩, hc⟩ := hg
  obtain ⟨rfl, f, rfl, hstands⟩ := h.method_of_created hc hs
  exact ⟨f, l, hc, hstands⟩

/-- What is labelled by its key is of the kind that the key tells. -/
theorem Founded.alike {en' : Entity} {ending : String} (h : u.Founded cx)
    (hc : .created .value ⟨l, en⟩ ∈ cx.events) (hr : en.key.render = en'.key.render)
    (he : en'.ending? = some ending) : en.ending? = some ending := by
  have hending : ∃ ending, en.ending? = some ending := by
    obtain ⟨recipe, hslot, -, hy⟩ := h.created _ _ _ hc
    cases recipe with
    | file path =>
      obtain rfl := hy
      exact ⟨_, rfl⟩
    | location place =>
      cases place with
      | none =>
        obtain ⟨f, -, rfl⟩ := hy
        exact ⟨_, rfl⟩
      | some place =>
        obtain ⟨_, f, -, -, rfl⟩ := hy
        exact ⟨_, rfl⟩
    | assembly name =>
      obtain ⟨path, f, -, rfl⟩ := hy
      exact ⟨_, rfl⟩
    | space id =>
      obtain ⟨s, parent, -, -, rfl⟩ := hy
      exact ⟨_, rfl⟩
    | _ => cases hslot
  obtain ⟨own, hown⟩ := hending
  rw [hown, Entity.ending_eq hr hown he]

/-- What was labelled with the key of an assembly is the unit's assembly. -/
theorem Founded.assembly {name path : String} {f : Label} (h : u.Founded cx)
    (hc : .created .value ⟨l, en⟩ ∈ cx.events)
    (hr : en.key.render = (Entity.assembly name path f).key.render) :
    ∃ name path f, en = .assembly name path f ∧ u.unit = .assembly name := by
  obtain ⟨name, path, f, rfl⟩ := Entity.eq_assembly (h.alike hc hr rfl)
  obtain ⟨recipe, hslot, hw, hy⟩ := h.created _ _ _ hc
  cases recipe with
  | assembly name =>
    obtain ⟨path, f, -, heq⟩ := hy
    cases heq
    exact ⟨name, path, f, rfl, hw⟩
  | location place => cases place <;> simp [Recipe.Yields] at hy
  | _ => simp [Recipe.Yields] at hy

/-- The end of a unit in which nothing went wrong. -/
structure Completed (u : ScopedUnit) (cx : Context) : Prop where
  sound : Sound [] cx
  founded : u.Founded cx
  underway : u.Underway [] cx
  histories : Histories u.model false [] cx
  queue : cx.queue = []
  rooted : u.Rooted cx
  clean : ¬ cx.Erred

namespace Completed

variable (h : u.Completed cx)

include h

theorem reaches (hc : .created slot ⟨l, en⟩ ∈ cx.events) : u.Reaches en cx := by
  rcases h.underway.ended en l (h.histories.populating h.queue h.clean hc) with hA | hr | herr
  · cases hA
  · exact hr
  · exact absurd herr h.clean

/-- Where no circle holds them up, all roots of a unit are reached. -/
theorem roots (hacyclic : ∀ a, ¬ Relation.TransGen u.model.Holds a a)
    (hown : ∀ name, u.unit = .assembly name → ownsAssembly u.scope name = true)
    (hr : u.unit.Root u.model u.scope id) : cx.Reached id := by
  have hrooted := h.rooted
  unfold Rooted at hrooted
  split at hrooted
  · next tree hunit =>
    rw [hunit] at hr
    obtain ⟨hx, t, ht, member, hm, hb⟩ := hr
    have hvisited := hrooted t ht member hm
    exact hvisited.resolve_right h.clean id
      (Model.visitsWithin hacyclic List.nodup_nil (by simp) hb) hx
  · next name hunit =>
    rw [hunit] at hr
    obtain ⟨c, hserved, hy⟩ := hrooted
    obtain ⟨path, f, -, heq⟩ := hy rfl
    obtain ⟨made, hc, hrender⟩ := h.sound.orderly.same _ _ _ (h.sound.orderly.served _ c hserved)
    obtain ⟨name', path', f', rfl, hunit'⟩ := h.founded.assembly hc (heq ▸ hrender rfl)
    obtain rfl : name = name' := TrapUnit.assembly.inj (hunit.symm.trans hunit')
    obtain ⟨start, hfinished⟩ := h.reaches hc
    have ⟨s, hs, _⟩ := hr
    obtain ⟨hin, htop⟩ := (TrapUnit.root_assembly hs).1 hr
    exact hfinished (hown name hunit) id hin s hs htop
  · next hunit =>
    rw [hunit] at hr
    exact hr.elim

/-- The members of a type that its unit defines. -/
theorem members {member : SymbolId} (hg : cx.Given id) (hs : u.model.IsNamedType id s)
    (he : s.kind ≠ .error) (hd : s.constructedFrom? id = none)
    (ho : u.scope.defines u.model id = .ok true) (hm : member ∈ s.members)
    (hx : u.model.Extractable member) : cx.Reached member := by
  obtain ⟨t, l, hc, hstands⟩ := h.founded.namedType hg hs
  obtain ⟨start, hfinished⟩ := h.reaches hc
  have hdefinition : t.definition = none := by
    rw [← Option.not_isSome_iff_eq_none, ← hstands.definition.isSome_eq, hd]
    simp
  refine hfinished (hstands.kind ▸ he) hdefinition ?_ s ?_ member hm hx
  · rwa [hstands.symbol]
  · rw [hstands.symbol]
    exact hs.1

/-- The arguments that a named type was made with. -/
theorem arguments {a : SymbolId} (hg : cx.Given id) (hs : u.model.IsNamedType id s)
    (hd : (s.constructedFrom? id).isSome = true) (ha : a ∈ s.typeArguments) : cx.Given a := by
  obtain ⟨t, -, -, hstands⟩ := h.founded.namedType hg hs
  have hall := hstands.arguments
  rw [if_pos (hstands.definition.isSome_eq ▸ hd)] at hall
  obtain ⟨l, -, hl⟩ := hall.flip.of_mem ha
  exact Model.TypeAt.given hl h.sound.orderly

/-- The arguments of a method's type, opened by the type or by a method of it. -/
theorem ownerArguments {c a : SymbolId} {t : Symbol} (hg : cx.Given id)
    (hs : u.model.IsMethod id s) (hcontainer : s.containingType = some c)
    (ht : u.model.symbol c = .ok t) (hd : (t.constructedFrom? c).isSome = true)
    (ha : a ∈ t.typeArguments) : cx.Given a := by
  have ho := h.sound.orderly
  obtain ⟨f, l, hc, hstands⟩ := h.founded.method hg hs
  obtain rfl : c = f.declaringSymbol :=
    Option.some.inj (hcontainer.symm.trans hstands.declaringSymbol)
  obtain ⟨start, hfinished⟩ := h.reaches hc
  -- The method may have found the type open. Whoever opened it has reached the arguments.
  rcases h.underway.opened _ (hfinished t ht hd).1 with ⟨_, _, hA, _⟩ | hargued | herr
  · cases hA
  · rcases hargued with ⟨type, slot, hintroduced⟩ | ⟨c', hc', hreached⟩
    · obtain ⟨recipe, made, hrecipe, hmade⟩ := hstands.declaring.created ho
      obtain ⟨slotType, hslot⟩ := Model.typeRecipe?_slot hrecipe
      obtain ⟨-, hsame⟩ := ho.created_unique hmade hintroduced rfl
      obtain rfl : made = .namedType type := congrArg Created.entity hsame
      rw [hslot] at hmade
      obtain ⟨recipe', -, hslot', hw, hy⟩ := h.founded.recipe hmade
      obtain ⟨id', s', rfl, -, -⟩ := hy.of_namedType
      cases hslot'
      obtain ⟨-, s', hnamed⟩ := hw
      obtain rfl : t = s' := Except.ok.inj (ht.symm.trans hnamed.1)
      exact h.arguments ⟨_, _, hmade⟩ hnamed hd ha
    · obtain rfl := hstands.declaring.unique hc' ho
      exact (hreached t ht hd a ha).given ho
  · exact absurd herr h.clean

/-- The symbols that were given a label are closed under what they need and hold. -/
theorem closed (hacyclic : ∀ a, ¬ Relation.TransGen u.model.Holds a a)
    (hown : ∀ name, u.unit = .assembly name → ownsAssembly u.scope name = true) :
    TrapFacts.Closed u.model u.scope u.unit cx.Given where
  roots id hr := (h.roots hacyclic hown hr).given h.sound.orderly
  container id s c hg hs hcontainer := by
    obtain ⟨t, -, -, hstands⟩ := h.founded.namedType hg hs
    obtain ⟨l, hl⟩ := hstands.container.of_eq_some hcontainer
    exact hl.given h.sound.orderly
  definition id s d hg hs hd := by
    obtain ⟨t, -, -, hstands⟩ := h.founded.namedType hg hs
    obtain ⟨l, hl⟩ := hstands.definition.of_eq_some hd
    exact hl.given h.sound.orderly
  arguments id s hg hs hd a ha := h.arguments hg hs hd ha
  pointee id s p hg hs hp := by
    obtain ⟨l, hl⟩ := h.founded.pointee hg hs hp
    exact hl.given h.sound.orderly
  owner id s c hg hs hc := by
    obtain ⟨f, -, -, hstands⟩ := h.founded.method hg hs
    obtain rfl : c = f.declaringSymbol := Option.some.inj (hc.symm.trans hstands.declaringSymbol)
    exact hstands.declaring.given h.sound.orderly
  returnType id s r hg hs hr := by
    obtain ⟨f, -, -, hstands⟩ := h.founded.method hg hs
    obtain ⟨l, hl⟩ := hstands.returnType.of_eq_some hr
    exact hl.given h.sound.orderly
  parameters id s hg hs p hp := by
    obtain ⟨f, -, -, hstands⟩ := h.founded.method hg hs
    obtain ⟨l, -, hl⟩ := hstands.parameters.flip.of_mem (List.mem_map_of_mem hp)
    exact Model.TypeAt.given hl h.sound.orderly
  members id s hg hs he hd ho member hm hx :=
    (h.members hg hs he hd ho hm hx).given h.sound.orderly
  ownerArguments id s c t hg hs hc ht hd a ha := h.ownerArguments hg hs hc ht hd ha

end Completed

end ScopedUnit

namespace TrapUnit

theorem owns_of_scope {name : String} (h : (assembly name).scope x m = .ok scope) :
    ownsAssembly scope name = true := by
  cases h
  simp [ownsAssembly]

/-- What is left when a unit ends and no error was reported. -/
theorem finish_clean (hend : unit.finish m scope x budget = (.extracted, cx))
    (hclean : ∀ message ∈ cx.sent, message.severity ≠ .error) :
    ¬ cx.Erred ∧ unit.runIn m scope x budget = ⟨.done (), cx⟩ := by
  have herr : ¬ cx.Erred := by
    rintro ⟨message, about, hs, he⟩
    exact hclean message (Context.mem_sent hs) he
  refine ⟨herr, (runIn_of_extracted hend).resolve_right ?_⟩
  rintro ⟨e, before, -, -, rfl⟩
  exact herr (Context.erred_send (m.severity_failureMessage _ _ _))

/-- A unit that was extracted without an error completed all that it reached. -/
theorem finish_completed (L : SymbolId → Prop) (hc : Closed m scope unit L)
    (hend : unit.finish m scope x budget = (.extracted, cx))
    (hclean : ∀ message ∈ cx.sent, message.severity ≠ .error) :
    ScopedUnit.Completed ⟨m, scope, unit, L⟩ cx := by
  obtain ⟨herr, hrun⟩ := finish_clean hend hclean
  let u : ScopedUnit := ⟨m, scope, unit, L⟩
  have hgoes := u.runIn_goes hc x budget
  rw [show u.unit.runIn u.model u.scope x budget = ⟨.done (), cx⟩ from hrun] at hgoes
  obtain ⟨hqueue, hrooted⟩ := hgoes.result () rfl
  have ht : Trail u.world u.manner [] false { extractor := x } cx := hgoes.trail
  exact {
    sound := ht.free.sound ⟨orderly_fresh x, accounted_fresh x⟩
    founded := ht.founded (u.founded_fresh x) (by simp)
    underway := ht.underway rfl (u.founded_fresh x) (by simp) (u.underway_fresh x)
    histories := ht.coarse.histories (histories_fresh x)
    queue := hqueue
    rooted := hrooted
    clean := herr }

/-- A unit that was extracted without an error has labelled the least set of symbols that holds
what it starts from and whatever that leads to. -/
theorem finish_least (hscope : unit.scope x m = .ok scope)
    (hacyclic : ∀ a, ¬ Relation.TransGen m.Holds a a)
    (hend : unit.finish m scope x budget = (.extracted, cx))
    (hclean : ∀ message ∈ cx.sent, message.severity ≠ .error) :
    IsLeast {L | Closed m scope unit L} cx.Given := by
  refine ⟨?_, fun L hL id hg => ?_⟩
  · refine (finish_completed _ (closed_univ m scope unit) hend hclean).closed hacyclic ?_
    rintro name rfl
    exact owns_of_scope hscope
  -- The run may be watched through any closed set: it makes nothing but what the set holds.
  · exact (finish_completed L hL hend hclean).founded.within hg

section

-- Evaluation compares keys by their literals, not byte by byte.
attribute [local irreducible] String.decEq

/-- A file with a namespace that holds a class, which has a method. -/
theorem finish_least_class :
    let m : Model := {
      trees := [{ path := "a.cs", members := [⟨0⟩] }]
      symbols := [
        { name := "N", kind := .space, members := [⟨1⟩] },
        { name := "C", kind := .classType, containingNamespace := some ⟨0⟩,
          locations := [⟨⟨0⟩, ⟨1, 1, 4, 2⟩⟩], members := [⟨2⟩] },
        { name := "f", kind := .method, containingType := some ⟨1⟩, returnType := some ⟨1⟩,
          locations := [⟨⟨0⟩, ⟨2, 3, 3, 4⟩⟩] }] }
    let scope : Scope := .source ⟨0⟩ "a.cs"
    let cx := ((source ⟨0⟩).finish m scope {} m.drainBudget).2
    (source ⟨0⟩).scope {} m = .ok scope ∧ (∀ a, ¬ Relation.TransGen m.Holds a a) ∧
      (source ⟨0⟩).finish m scope {} m.drainBudget = (.extracted, cx) ∧ cx.sent = [] ∧
      IsLeast {L | Closed m scope (source ⟨0⟩) L} cx.Given := by
  intro m scope cx
  have hscope : (source ⟨0⟩).scope {} m = .ok scope := rfl
  have hholds : ∀ a b, m.Holds a b → a = ⟨0⟩ ∧ b = ⟨1⟩ := by
    rintro ⟨a⟩ b ⟨s, hs, hk, hb⟩
    match a with
    | 0 =>
      cases hs
      exact ⟨rfl, List.mem_singleton.1 hb⟩
    | 1 | 2 => cases hs; cases hk
    | a + 3 => cases hs
  have hacyclic : ∀ a, ¬ Relation.TransGen m.Holds a a := by
    intro a h
    obtain ⟨b, hab, -⟩ := Relation.TransGen.head'_iff.1 h
    obtain ⟨c, -, hca⟩ := Relation.TransGen.tail'_iff.1 h
    have hfrom := (hholds a b hab).1
    rw [(hholds c a hca).2] at hfrom
    cases hfrom
  have hstatus : ((source ⟨0⟩).finish m scope {} m.drainBudget).1 = .extracted := by cbv
  have hend : (source ⟨0⟩).finish m scope {} m.drainBudget = (.extracted, cx) :=
    Prod.ext hstatus rfl
  have hsent : ((source ⟨0⟩).finish m scope {} m.drainBudget).2.sent = [] := by cbv
  exact ⟨hscope, hacyclic, hend, hsent, finish_least hscope hacyclic hend (by simp [cx, hsent])⟩

end

end TrapUnit

end TrapFacts
