import TrapFacts.Proofs.Unit.Placed
import TrapFacts.Proofs.Unit.Reachable
import TrapFacts.Proofs.Unit.Reference
import TrapFacts.Proofs.Unit.WellFormed

/-! Keys tell the same entities from one trap to another. -/

namespace TrapFacts

variable {u : ScopedUnit} {m : Model} {scope : Scope} {x : Extractor} {unit : TrapUnit}
  {cx : Context}
  {en : Entity} {l l' : Label} {slot : Slot} {id : SymbolId} {s : Symbol}

/-- A type or a method was given a label. -/
def Context.Labels (cx : Context) (id : SymbolId) (l : Label) : Prop :=
  ∃ type en, .created (.object type (.symbol id)) ⟨l, en⟩ ∈ cx.events

def Event.labels (id : SymbolId) (l : Label) : Event → Bool
  | .created (.object _ source) c => source = .symbol id && c.label = l
  | _ => false

theorem Context.labels_of_any (h : cx.events.any (Event.labels id l) = true) : cx.Labels id l := by
  obtain ⟨e, he, hlabels⟩ := List.any_eq_true.1 h
  unfold Event.labels at hlabels
  split at hlabels
  · simp only [Bool.and_eq_true, decide_eq_true_eq] at hlabels
    obtain ⟨rfl, rfl⟩ := hlabels
    exact ⟨_, _, he⟩
  · cases hlabels

/-- A trap in which labels say of entities what the model alone does. -/
structure Portable (m : Model) (cx : Context) : Prop where
  expanded : ∀ l key, .define l key ∈ cx.trap →
    expandedKey cx.trap l = key.expand (expandedKey cx.trap)
  symbol : ∀ id l, cx.Labels id l → expandedKey cx.trap l = m.symbolKey id
  space : ∀ id name parent l, cx.Introduced (.space id name parent) l →
    expandedKey cx.trap l = spaceKey (m.spaceNames id)
  file : ∀ path l, cx.Introduced (.file path) l →
    (∃ raw, path = slashed raw) ∧ expandedKey cx.trap l = (Entity.file path).key
  location : ∀ f span l, cx.Introduced (.location f span) l →
    ∃ path, cx.Introduced (.file path) f ∧ expandedKey cx.trap l = locationKey path span

namespace Orderly

/-- An object stands for one entity. -/
theorem object_unique {type : EntityType} {source : Source} {c c' : Created} (h : Orderly cx)
    (hc : .created (.object type source) c ∈ cx.events)
    (hc' : .created (.object type source) c' ∈ cx.events) : c = c' := by
  have hknown : cx.known? (.object type source) = some c := (h.created _ c hc).1
  exact Option.some.inj (hknown.symm.trans (h.created _ c' hc').1)

/-- An entity is handed out under one label. -/
theorem handed_unique (h : Orderly cx) (hh : cx.Handed en l) (hh' : cx.Handed en l') : l = l' := by
  have hsame : cx.same? .value en = some ⟨l, en⟩ := h.served _ _ hh
  exact congrArg Created.label (Option.some.inj (hsame.symm.trans (h.served _ _ hh')))

end Orderly

namespace Model

/-- A label that was given to a type. -/
def TypeMade (m : Model) (cx : Context) (id : SymbolId) (l : Label) : Prop :=
  ∃ recipe en, m.typeRecipe? id = some recipe ∧ .created recipe.slot ⟨l, en⟩ ∈ cx.events

/-- The label of a namespace, which others with the same key share. -/
def SpaceKnown (m : Model) (cx : Context) (id : SymbolId) (l : Label) : Prop :=
  m.IsSpace id ∧ ∃ s parent, m.symbol id = .ok s ∧
    Option.Rel (m.SpaceAt cx) s.containingNamespace parent ∧
    cx.same? .value (.space id s.name parent) = some ⟨l, .space id s.name parent⟩

theorem TypeMade.unique (h : m.TypeMade cx id l) (h' : m.TypeMade cx id l') (ho : Orderly cx) :
    l = l' := by
  obtain ⟨recipe, en, hr, hc⟩ := h
  obtain ⟨recipe', en', hr', hc'⟩ := h'
  obtain rfl := Option.some.inj (hr.symm.trans hr')
  obtain ⟨type, hslot⟩ := typeRecipe?_slot hr
  rw [hslot] at hc hc'
  exact congrArg Created.label (ho.object_unique hc hc')

/-- A namespace has one label. -/
theorem SpaceAt.unique (h : m.SpaceAt cx id l) (h' : m.SpaceAt cx id l') (ho : Orderly cx) :
    l = l' := by
  induction h generalizing l' with
  | root hs hn hh =>
    cases h' with
    | root hs' _ hh' =>
      obtain rfl := Except.ok.inj (hs.symm.trans hs')
      exact ho.handed_unique hh hh'
    | child hs' hn' =>
      obtain rfl := Except.ok.inj (hs.symm.trans hs')
      cases hn.symm.trans hn'
  | child hs hn _ hh ih =>
    cases h' with
    | root hs' hn' =>
      obtain rfl := Except.ok.inj (hs.symm.trans hs')
      cases hn.symm.trans hn'
    | child hs' hn' hp hh' =>
      obtain rfl := Except.ok.inj (hs.symm.trans hs')
      obtain rfl := Option.some.inj (hn.symm.trans hn')
      obtain rfl := ih hp
      exact ho.handed_unique hh hh'

/-- A namespace that was made is known under its label. -/
theorem SpaceAt.known (h : m.SpaceAt cx id l) (hid : m.IsSpace id) (ho : Orderly cx) :
    m.SpaceKnown cx id l := by
  cases h with
  | root hs hn hh => exact ⟨hid, _, none, hs, hn ▸ .none, ho.served _ _ hh⟩
  | child hs hn hp hh => exact ⟨hid, _, some _, hs, hn ▸ .some hp, ho.served _ _ hh⟩

theorem SpaceKnown.unique (h : m.SpaceKnown cx id l) (h' : m.SpaceKnown cx id l')
    (ho : Orderly cx) : l = l' := by
  obtain ⟨-, s, parent, hs, hp, hsame⟩ := h
  obtain ⟨-, s', parent', hs', hp', hsame'⟩ := h'
  obtain rfl := Except.ok.inj (hs.symm.trans hs')
  obtain rfl := hp.unique hp' fun _ _ _ ha ha' => ha.unique ha' ho
  exact congrArg Created.label (Option.some.inj (hsame.symm.trans hsame'))

end Model

namespace ScopedUnit

/-- What is true of a context when the run of a unit ends, however it ends. -/
structure Ended (u : ScopedUnit) (cx : Context) : Prop where
  orderly : Orderly cx
  founded : u.Founded cx
  mentions : Scoped cx.trap
  numbered : Numbered cx

namespace Ended

variable (h : u.Ended cx)

include h

theorem defined (hc : .created slot ⟨l, en⟩ ∈ cx.events) : .define l en.key ∈ cx.trap := by
  rw [Context.trap_eq]
  exact List.mem_filterMap.2 ⟨_, (h.orderly.created _ _ hc).2, rfl⟩

/-- A label expands to the expansion of its key. -/
theorem expanded {key : Key} (hd : .define l key ∈ cx.trap) :
    expandedKey cx.trap l = key.expand (expandedKey cx.trap) :=
  expandedKey_define h.mentions h.numbered.nodup hd

/-- A label is younger than those in the key of its entity. -/
theorem label_lt (hc : .created slot ⟨l, en⟩ ∈ cx.events) (hl' : l' ∈ en.key.labels) :
    l'.number < l.number :=
  h.numbered.label_lt h.mentions (h.defined hc) hl'

theorem file {path : String} (hf : cx.FileAt path l) : cx.Introduced (.file (slashed path)) l := by
  obtain ⟨made, hc, hr⟩ := h.orderly.same _ _ _ (h.orderly.served _ _ hf)
  obtain ⟨path', rfl⟩ := Entity.eq_file (h.founded.alike hc (hr rfl) rfl)
  exact ⟨_, Entity.file_inj (hr rfl) ▸ hc⟩

/-- A namespace is made as the model has it. -/
theorem space {name : String} {parent : Option Label}
    (hi : cx.Introduced (.space id name parent) l) :
    .created .value ⟨l, .space id name parent⟩ ∈ cx.events ∧ u.model.IsSpace id ∧
      ∃ s, u.model.symbol id = .ok s ∧ name = s.name ∧
        Option.Rel (u.model.SpaceAt cx) s.containingNamespace parent := by
  obtain ⟨slot, hc⟩ := hi
  obtain ⟨recipe, rfl, hw, hy⟩ := h.founded.created _ _ _ hc
  obtain ⟨rfl, hs⟩ := hy.of_space
  exact ⟨hc, hw, hs⟩

/-- Unless the model is ambiguous, what shares a namespace's label has its key. -/
theorem space_created (hm : u.model.Unambiguous) (hk : u.model.SpaceKnown cx id l) :
    ∃ id' s parent, u.model.symbol id = .ok s ∧
      Option.Rel (u.model.SpaceAt cx) s.containingNamespace parent ∧
      .created .value ⟨l, .space id' s.name parent⟩ ∈ cx.events := by
  obtain ⟨hid, s, parent, hs, hp, hsame⟩ := hk
  obtain ⟨made, hc, hr⟩ := h.orderly.same _ _ _ hsame
  obtain ⟨id', name', parent', rfl⟩ := Entity.eq_space (h.founded.alike hc (hr rfl) rfl)
  have htext := Entity.spaceText_inj (hr rfl)
  obtain ⟨-, hid', s', hs', hname, hp'⟩ := h.space ⟨_, hc⟩
  refine ⟨id', s, parent, hs, hp, ?_⟩
  cases parent with
  | none =>
    cases parent' with
    | none =>
      obtain rfl : name' = s.name := htext
      exact hc
    | some above =>
      refine absurd htext.symm ?_
      obtain ⟨_, hn', -⟩ := hp'.of_mem (Option.mem_toList.2 rfl)
      subst hname
      exact hm _ _ _ _ hid hs hp.eq_none hid' hs' (by simp [hn']) above
  | some above =>
    cases parent' with
    | none =>
      refine absurd htext ?_
      obtain ⟨_, hn, -⟩ := hp.of_mem (Option.mem_toList.2 rfl)
      subst hname
      exact hm _ _ _ _ hid' hs' hp'.eq_none hid hs (by simp [hn]) above
    | some above' =>
      obtain ⟨rfl, rfl⟩ := Label.inside_inj htext
      exact hc

/-- The labels of a chain of namespaces say the chain's names. The symbols on the path were given
later labels, so that the chain does not come back to them. -/
theorem space_key (hm : u.model.Unambiguous) (path : List SymbolId)
    (hk : u.model.SpaceKnown cx id l)
    (hpath : ∀ p ∈ path, ∃ lp, u.model.SpaceKnown cx p lp ∧ l.number < lp.number) :
    u.model.spaceNamesOn id path ≠ [] ∧
      expandedKey cx.trap l = spaceKey (u.model.spaceNamesOn id path) := by
  -- On labels, not on symbols: a chain of symbols may come back to itself, but the labels in a key
  -- are older than the label of the key.
  induction hn : l.number using Nat.strongRecOn generalizing id l path with
  | ind n ih =>
    obtain rfl := hn
    have hmem : id ∉ path := by
      intro hmem
      obtain ⟨lp, hp, hlt⟩ := hpath id hmem
      rw [hk.unique hp h.orderly] at hlt
      exact absurd hlt (Nat.lt_irrefl _)
    obtain ⟨id', s, parent, hs, hp, hc⟩ := h.space_created hm hk
    rw [Model.spaceNamesOn_eq hmem hs]
    refine ⟨List.cons_ne_nil _ _, ?_⟩
    rw [h.expanded (h.defined hc)]
    cases parent with
    | none =>
      rw [hp.eq_none]
      simp only [Entity.key, Option.elim_none, spaceKey]
      split <;> rfl
    | some above =>
      obtain ⟨around, hn, ha⟩ := hp.of_mem (Option.mem_toList.2 rfl)
      have hlt : above.number < l.number := h.label_lt hc List.mem_cons_self
      have hknown := ha.known ⟨id, s, hs, .inr hn⟩ h.orderly
      have habove : ∀ p ∈ id :: path,
          ∃ lp, u.model.SpaceKnown cx p lp ∧ above.number < lp.number := by
        intro p hp
        rcases List.mem_cons.1 hp with rfl | hp
        · exact ⟨l, hk, hlt⟩
        · obtain ⟨lp, hp, hlp⟩ := hpath p hp
          exact ⟨lp, hp, Nat.lt_trans hlt hlp⟩
      obtain ⟨hne, hkey⟩ := ih above.number hlt _ hknown habove rfl
      rw [hn, Option.elim_some, spaceKey_cons hne, ← hkey]
      rfl

/-- The expanded key of a namespace is that of its names from the top. -/
theorem spaceAt_key (hm : u.model.Unambiguous) (hid : u.model.IsSpace id)
    (ha : u.model.SpaceAt cx id l) : expandedKey cx.trap l = spaceKey (u.model.spaceNames id) :=
  (h.space_key hm [] (ha.known hid h.orderly) (by simp)).2

/-- The label of a type says the type's key. The symbols on the path were given later labels, so
that the type does not lead back to them. -/
theorem type_key (hm : u.model.Unambiguous) (path : List SymbolId) (ht : u.model.TypeMade cx id l)
    (hpath : ∀ p ∈ path, ∃ lp, u.model.TypeMade cx p lp ∧ l.number < lp.number) :
    expandedKey cx.trap l = u.model.typeKeyOn id path := by
  induction hn : l.number using Nat.strongRecOn generalizing id l path with
  | ind n ih =>
    obtain rfl := hn
    have hmem : id ∉ path := by
      intro hmem
      obtain ⟨lp, hp, hlt⟩ := hpath id hmem
      rw [ht.unique hp h.orderly] at hlt
      exact absurd hlt (Nat.lt_irrefl _)
    have ⟨recipe, en, hr, hc⟩ := ht
    have htype : ∀ a, ∀ k ∈ en.key.labels, u.model.TypeAt cx a k →
        expandedKey cx.trap k = u.model.typeKeyOn a (id :: path) := by
      intro a k hk ha
      have hlt := h.label_lt hc hk
      refine ih k.number hlt _ (ha.created h.orderly) (fun p hp => ?_) rfl
      rcases List.mem_cons.1 hp with rfl | hp
      · exact ⟨l, ht, hlt⟩
      · obtain ⟨lp, hp, hlp⟩ := hpath p hp
        exact ⟨lp, hp, Nat.lt_trans hlt hlp⟩
    obtain ⟨recipe', hslot, -, hy⟩ := h.founded.created _ _ _ hc
    obtain ⟨s, hs⟩ := Model.symbol_of_typeRecipe? hr
    obtain ⟨type, hobject⟩ := Model.typeRecipe?_slot hr
    obtain rfl := Recipe.eq_of_slot hobject (hslot ▸ hobject)
    rw [h.expanded (h.defined hc), Model.typeKeyOn_eq hmem hs]
    refine hy.expand hr hs (fun a ha k _ hk => ?_) htype
    exact h.spaceAt_key hm ⟨id, s, hs, .inr ha⟩ hk

/-- The expanded key of a symbol can be computed from the model alone. -/
theorem symbol_key (hm : u.model.Unambiguous) (hl : cx.Labels id l) :
    expandedKey cx.trap l = u.model.symbolKey id := by
  obtain ⟨type, en, hc⟩ := hl
  obtain ⟨recipe, rfl | rfl | rfl, hslot, ⟨-, s, hw⟩, hy⟩ := h.founded.recipe hc
  · have hmethod : ¬ s.kind.isMethod = true := fun hk =>
      absurd hw.2.1 (by simp [isType_of_isMethod hk])
    simp only [Model.symbolKey, hw.1, if_neg hmethod]
    exact h.type_key hm [] ⟨_, en, typeRecipe?_of_namedType hw, hslot ▸ hc⟩ (by simp)
  · have hmethod : ¬ s.kind.isMethod = true := by simp [hw.2, SymbolKind.isMethod]
    simp only [Model.symbolKey, hw.1, if_neg hmethod]
    exact h.type_key hm [] ⟨_, en, typeRecipe?_of_pointer hw, hslot ▸ hc⟩ (by simp)
  · obtain ⟨s', f, hs', hstands, rfl⟩ := hy
    obtain rfl := Except.ok.inj (hw.1.symm.trans hs')
    simp only [Model.symbolKey, hw.1, if_pos hw.2]
    rw [h.expanded (h.defined hc)]
    exact hstands.expand fun a k hk ha => h.type_key hm [] (ha.created h.orderly) (by simp)

/-- What labels say depends on the model alone. -/
theorem portable (hm : u.model.Unambiguous) : Portable u.model cx where
  expanded l key hd := h.expanded hd
  symbol id l hl := h.symbol_key hm hl
  space id name parent l hi := by
    obtain ⟨hc, hid, s, hs, rfl, hp⟩ := h.space hi
    have hknown : u.model.SpaceKnown cx id l :=
      ⟨hid, s, parent, hs, hp, (h.orderly.created _ _ hc).1⟩
    exact (h.space_key hm [] hknown (by simp)).2
  file path l hi := by
    obtain ⟨slot, hc⟩ := hi
    obtain ⟨recipe, -, -, hy⟩ := h.founded.created _ _ _ hc
    obtain ⟨raw, -, hraw⟩ := hy.of_file
    exact ⟨⟨raw, hraw⟩, h.expanded (h.defined hc)⟩
  location f span l hi := by
    obtain ⟨slot, hc⟩ := hi
    obtain ⟨recipe, -, -, hy⟩ := h.founded.created _ _ _ hc
    obtain ⟨-, path, hf⟩ := hy.of_location
    obtain ⟨slot, hfile⟩ := h.file hf
    have hkey : expandedKey cx.trap f = (Entity.file (slashed path)).key :=
      h.expanded (h.defined hfile)
    refine ⟨slashed path, ⟨slot, hfile⟩, ?_⟩
    rw [h.expanded (h.defined hc)]
    cases span with
    | some span => simp only [Entity.key, Key.expand, hkey, locationKey, Span.expand_key]; rfl
    | none => simp only [Entity.key, Key.expand, hkey, locationKey, Span.expand_key]

end Ended

end ScopedUnit

namespace TrapUnit

theorem finish_ended (unit : TrapUnit) (m : Model) (scope : Scope) (x : Extractor) (budget : Nat) :
    ScopedUnit.Ended ⟨m, scope, unit, fun _ => True⟩ (unit.finish m scope x budget).2 where
  orderly := (finish_sound unit m scope x budget).orderly
  founded := finish_founded unit m scope x budget
  mentions := (finish_labelled unit m scope x budget).mentions
  numbered := finish_numbered unit m scope x budget

/-- However two units of a model are extracted, in any order, under any settings and with any end,
the labels of their traps say what the model alone does: a symbol has one key in both. -/
theorem finish_portable (hm : m.Unambiguous) (unit unit' : TrapUnit) (scope scope' : Scope)
    (x x' : Extractor) (budget budget' : Nat) :
    let cx := (unit.finish m scope x budget).2
    let cx' := (unit'.finish m scope' x' budget').2
    Portable m cx ∧ Portable m cx' ∧ ∀ id l l', cx.Labels id l → cx'.Labels id l' →
      expandedKey cx.trap l = expandedKey cx'.trap l' := by
  intro cx cx'
  have h : Portable m cx := (finish_ended unit m scope x budget).portable hm
  have h' : Portable m cx' := (finish_ended unit' m scope' x' budget').portable hm
  refine ⟨h, h', fun id l l' hl hl' => ?_⟩
  rw [h.symbol id l hl, h'.symbol id l' hl']

/-- A file and an assembly with a method in a nested namespace that takes a pointer. -/
theorem finish_portable_pointer :
    let m : Model := {
      assemblies := [{ name := "L", path := "L.dll" }]
      trees := [{ path := "a.cs", members := [⟨3⟩] }]
      symbols := [
        { name := "N", kind := .space },
        { name := "M", kind := .space, containingNamespace := some ⟨0⟩ },
        { name := "C", kind := .classType, containingNamespace := some ⟨1⟩,
          containingAssembly := some "L", members := [⟨3⟩] },
        { name := "f", kind := .method, containingType := some ⟨2⟩, parameters := [⟨"p", ⟨4⟩⟩] },
        { name := "", kind := .pointer, pointedAt := some ⟨2⟩ }] }
    let cx := ((source ⟨0⟩).finish m (.source ⟨0⟩ "a.cs") {} m.drainBudget).2
    let cx' := ((assembly "L").finish m (.assembly "L" "L.dll") {} m.drainBudget).2
    m.Unambiguous ∧ Portable m cx ∧ Portable m cx' ∧ ∀ id l l', cx.Labels id l →
      cx'.Labels id l' → expandedKey cx.trap l = expandedKey cx'.trap l' := by
  intro m cx cx'
  have hm : m.Unambiguous := Model.unambiguous_of_head (by decide)
  exact ⟨hm, finish_portable hm (source ⟨0⟩) (assembly "L") (.source ⟨0⟩ "a.cs")
    (.assembly "L" "L.dll") {} {} m.drainBudget m.drainBudget⟩

section

-- Evaluation compares keys by their literals, not byte by byte.
attribute [local irreducible] String.decEq

/-- Two files that share a type in a nested namespace. One of them comes to a namespace that is
named like the label of the type's outer namespace. -/
theorem finish_not_portable :
    let m : Model := {
      trees := [{ path := "a.cs", members := [⟨0⟩, ⟨4⟩, ⟨5⟩] },
        { path := "b.cs", members := [⟨3⟩, ⟨4⟩, ⟨5⟩] }]
      symbols := [
        { name := "P", kind := .space },
        { name := "\x7b#2\x7d.A", kind := .space },
        { name := "A", kind := .space, containingNamespace := some ⟨0⟩ },
        { name := "Q", kind := .space },
        { name := "S", kind := .classType, containingNamespace := some ⟨1⟩ },
        { name := "T", kind := .classType, containingNamespace := some ⟨2⟩ }] }
    let scope : Scope := .source ⟨0⟩ "a.cs"
    let scope' : Scope := .source ⟨1⟩ "b.cs"
    let cx := ((source ⟨0⟩).finish m scope {} m.drainBudget).2
    let cx' := ((source ⟨1⟩).finish m scope' {} m.drainBudget).2
    (source ⟨0⟩).scope {} m = .ok scope ∧ (source ⟨1⟩).scope {} m = .ok scope' ∧
      cx.Labels ⟨5⟩ ⟨7⟩ ∧ cx'.Labels ⟨5⟩ ⟨9⟩ ∧
      expandedKey cx.trap ⟨7⟩ ≠ expandedKey cx'.trap ⟨9⟩ := by
  intro m scope scope' cx cx'
  have hlabel : ((source ⟨0⟩).finish m scope {} m.drainBudget).2.events.any
      (Event.labels ⟨5⟩ ⟨7⟩) = true := by cbv
  have hlabel' : ((source ⟨1⟩).finish m scope' {} m.drainBudget).2.events.any
      (Event.labels ⟨5⟩ ⟨9⟩) = true := by cbv
  have hkey : expandedKey ((source ⟨0⟩).finish m scope {} m.drainBudget).2.trap ⟨7⟩ =
      .nest (.text "\x7b#2\x7d.A" (.literal ";namespace"))
        (.text "." (.text "T" (.literal ";type"))) := by
    cbv
  have hkey' : expandedKey ((source ⟨1⟩).finish m scope' {} m.drainBudget).2.trap ⟨9⟩ =
      .nest (.nest (.text "P" (.literal ";namespace"))
          (.text "." (.text "A" (.literal ";namespace"))))
        (.text "." (.text "T" (.literal ";type"))) := by
    cbv
  refine ⟨rfl, rfl, Context.labels_of_any hlabel, Context.labels_of_any hlabel', ?_⟩
  rw [hkey, hkey']
  simp

end

end TrapUnit

end TrapFacts
