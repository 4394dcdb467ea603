import Mathlib.Data.List.Forall2
import TrapFacts.Proofs.Unit.Labelled

/-! What the labels of a trap stand for. -/

theorem Option.Rel.mono {α β : Type} {R S : α → β → Prop} {a : Option α} {b : Option β}
    (h : ∀ a b, R a b → S a b) (hr : Option.Rel R a b) : Option.Rel S a b := by
  cases hr with
  | none => exact .none
  | some hab => exact .some (h _ _ hab)

theorem Option.Rel.of_mem {α β : Type} {R : α → β → Prop} {a : Option α} {b : Option β} {y : β}
    (hr : Option.Rel R a b) (hb : y ∈ b.toList) : ∃ x, a = Option.some x ∧ R x y := by
  cases hr with
  | none => cases hb
  | some hab => exact ⟨_, rfl, List.mem_singleton.1 hb ▸ hab⟩

theorem Option.Rel.of_eq_some {α β : Type} {R : α → β → Prop} {a : Option α} {b : Option β} {x : α}
    (hr : Option.Rel R a b) (ha : a = Option.some x) : ∃ y, R x y := by
  cases hr with
  | none => cases ha
  | some hab => exact ⟨_, Option.some.inj ha ▸ hab⟩

theorem Option.Rel.eq_none {α β : Type} {R : α → β → Prop} {a : Option α}
    (hr : Option.Rel R a Option.none) : a = Option.none := by
  cases hr
  rfl

theorem Option.Rel.unique {α β : Type} {R : α → β → Prop} {a : Option α} {b b' : Option β}
    (hr : Option.Rel R a b) (hr' : Option.Rel R a b') (h : ∀ x y y', R x y → R x y' → y = y') :
    b = b' := by
  cases hr with
  | none => cases hr'; rfl
  | some hab => cases hr' with
    | some hab' => rw [h _ _ _ hab hab']

theorem Option.Rel.isSome_eq {α β : Type} {R : α → β → Prop} {a : Option α} {b : Option β}
    (hr : Option.Rel R a b) : a.isSome = b.isSome := by
  cases hr <;> rfl

theorem List.Forall₂.of_mem {α β : Type} {R : α → β → Prop} {as : List α} {bs : List β} {y : β}
    (h : List.Forall₂ R as bs) (hb : y ∈ bs) : ∃ x ∈ as, R x y := by
  induction h with
  | nil => cases hb
  | cons hxy _ ih =>
    rcases List.mem_cons.1 hb with rfl | hb
    · exact ⟨_, List.mem_cons_self, hxy⟩
    · obtain ⟨x, hx, hr⟩ := ih hb
      exact ⟨x, List.mem_cons_of_mem _ hx, hr⟩

namespace TrapFacts

variable {m : Model} {scope : Scope} {cx cx' : Context} {en : Entity} {l : Label} {id : SymbolId}
  {recipe : Recipe}

/-- What remains true, whatever happens. -/
def Lasting (P : Context → Prop) : Prop :=
  ∀ ⦃cx cx'⦄, P cx → cx.events <+: cx'.events → P cx'

namespace Context

/-- A label that was handed out for an entity without an object. -/
def Handed (cx : Context) (en : Entity) (l : Label) : Prop :=
  .served .value ⟨l, en⟩ ∈ cx.events

/-- A label that stands for the file of a path. -/
def FileAt (cx : Context) (path : String) (l : Label) : Prop :=
  cx.Handed (.file (slashed path)) l

/-- A symbol that was handed a label, as a type or as a method. -/
def Reached (cx : Context) (id : SymbolId) : Prop :=
  ∃ type c, .served (.object type (.symbol id)) c ∈ cx.events

end Context

namespace Model

/-- How the entity of a type symbol is made. -/
def typeRecipe? (m : Model) (id : SymbolId) : Option Recipe :=
  match m.symbol id with
  | .ok s =>
    if s.kind = .pointer then some (.pointer id)
    else if s.kind.isType then some (.namedType id)
    else none
  | .error _ => none

/-- A label that stands for a type. -/
def TypeAt (m : Model) (cx : Context) (id : SymbolId) (l : Label) : Prop :=
  ∃ recipe, m.typeRecipe? id = some recipe ∧ ∃ c, .served recipe.slot c ∈ cx.events ∧ c.label = l

/-- A label that stands for a namespace. -/
inductive SpaceAt (m : Model) (cx : Context) : SymbolId → Label → Prop
  | root {id : SymbolId} {s : Symbol} {l : Label} : m.symbol id = .ok s →
      s.containingNamespace = none → cx.Handed (.space id s.name none) l → SpaceAt m cx id l
  | child {id parent : SymbolId} {s : Symbol} {l above : Label} : m.symbol id = .ok s →
      s.containingNamespace = some parent → SpaceAt m cx parent above →
      cx.Handed (.space id s.name (some above)) l → SpaceAt m cx id l

end Model

/-- A named type as the model has it. -/
structure NamedType.Stands (m : Model) (cx : Context) (id : SymbolId) (t : NamedType) (s : Symbol) :
    Prop where
  symbol : t.symbol = id
  kind : t.kind = s.kind
  name : t.name = s.name
  container : Option.Rel (m.TypeAt cx) s.containingType t.container
  space : Option.Rel (m.SpaceAt cx) (if t.container.isNone then s.containingNamespace else none)
    t.space
  definition : Option.Rel (m.TypeAt cx) (s.constructedFrom? id) t.definition
  arguments : List.Forall₂ (m.TypeAt cx) (if t.definition.isSome then s.typeArguments else [])
    t.arguments
  location : t.location = s.locations.head?

/-- A method as the model has it. -/
structure Method.Stands (m : Model) (cx : Context) (id : SymbolId) (f : Method) (s : Symbol) :
    Prop where
  symbol : f.symbol = id
  kind : f.kind = s.kind
  name : f.name = s.name
  declaringSymbol : s.containingType = some f.declaringSymbol
  declaring : m.TypeAt cx f.declaringSymbol f.declaring
  returnType : Option.Rel (m.TypeAt cx) s.returnType f.returnType
  parameters : List.Forall₂ (m.TypeAt cx) (s.parameters.map (·.type)) f.parameters
  location : f.location = s.locations.head?

/-- What the entity of a recipe is, and what its labels stand for. -/
def Recipe.Yields (m : Model) : Recipe → Entity → Context → Prop
  | .file path, en, _ => en = .file (slashed path)
  | .location none, en, cx => ∃ f, cx.FileAt "" f ∧ en = .location f none
  | .location (some place), en, cx => ∃ tree f, m.tree place.tree = .ok tree ∧
      cx.FileAt tree.path f ∧ en = .location f (some place.span)
  | .assembly name, en, cx => ∃ path f, cx.FileAt path f ∧ en = .assembly name path f
  | .space id, en, cx => ∃ s parent, m.symbol id = .ok s ∧
      Option.Rel (m.SpaceAt cx) s.containingNamespace parent ∧ en = .space id s.name parent
  | .namedType id, en, cx => ∃ s t, m.symbol id = .ok s ∧ NamedType.Stands m cx id t s ∧
      en = .namedType t
  | .pointer id, en, cx => ∃ s pointee l, m.symbol id = .ok s ∧ s.pointedAt = some pointee ∧
      m.TypeAt cx pointee l ∧ en = .pointer id l
  | .method id, en, cx => ∃ s f, m.symbol id = .ok s ∧ Method.Stands m cx id f s ∧ en = .method f

/-- A label that stands for the place of a declaration, or for what was generated. -/
def Model.PlaceAt (m : Model) (cx : Context) (place : Option Declaration) (l : Label) : Prop :=
  ∃ en, (Recipe.location place).Yields m en cx ∧ cx.Handed en l

theorem Context.Handed.mono (h : cx.Handed en l) (he : cx.events <+: cx'.events) :
    cx'.Handed en l :=
  he.subset h

theorem Context.lasting_reached (id : SymbolId) : Lasting (·.Reached id) := by
  rintro cx cx' ⟨type, c, hc⟩ he
  exact ⟨type, c, he.subset hc⟩

namespace Model

theorem TypeAt.mono (h : m.TypeAt cx id l) (he : cx.events <+: cx'.events) : m.TypeAt cx' id l := by
  obtain ⟨recipe, hr, c, hc, hl⟩ := h
  exact ⟨recipe, hr, c, he.subset hc, hl⟩

theorem SpaceAt.mono (h : m.SpaceAt cx id l) (he : cx.events <+: cx'.events) :
    m.SpaceAt cx' id l := by
  induction h with
  | root hs hn hh => exact .root hs hn (hh.mono he)
  | child hs hn _ hh ih => exact .child hs hn ih (hh.mono he)

theorem SpaceAt.handed (h : m.SpaceAt cx id l) : ∃ en, cx.Handed en l := by
  cases h with
  | root _ _ hh | child _ _ _ hh => exact ⟨_, hh⟩

theorem firstDeclaration?_eq {s : Symbol} (h : m.symbol id = .ok s) :
    m.firstDeclaration? id = s.locations.head? := by
  simp [firstDeclaration?, h]

theorem symbol_of_typeRecipe? (h : m.typeRecipe? id = some recipe) : ∃ s, m.symbol id = .ok s := by
  unfold typeRecipe? at h
  split at h
  · next s hs => exact ⟨s, hs⟩
  · cases h

/-- A type has its entity from its own symbol. -/
theorem typeRecipe?_slot (h : m.typeRecipe? id = some recipe) :
    ∃ type, recipe.slot = .object type (.symbol id) := by
  unfold typeRecipe? at h
  split at h
  · split at h
    · cases h
      exact ⟨.pointer, rfl⟩
    · split at h
      · cases h
        exact ⟨.namedType, rfl⟩
      · cases h
  · cases h

/-- A type that was made was reached. -/
theorem TypeAt.reached (h : m.TypeAt cx id l) : cx.Reached id := by
  obtain ⟨recipe, hr, c, hc, _⟩ := h
  obtain ⟨type, hslot⟩ := typeRecipe?_slot hr
  exact ⟨type, c, hslot ▸ hc⟩

end Model

namespace Recipe

/-- What an entity was made as, it remains. -/
theorem lasting_yields (m : Model) (recipe : Recipe) (en : Entity) :
    Lasting (recipe.Yields m en) := by
  intro cx cx' h he
  cases recipe with
  | file path => exact h
  | location place =>
    cases place with
    | none =>
      obtain ⟨f, hf, rfl⟩ := h
      exact ⟨f, hf.mono he, rfl⟩
    | some place =>
      obtain ⟨tree, f, ht, hf, rfl⟩ := h
      exact ⟨tree, f, ht, hf.mono he, rfl⟩
  | assembly name =>
    obtain ⟨path, f, hf, rfl⟩ := h
    exact ⟨path, f, hf.mono he, rfl⟩
  | space id =>
    obtain ⟨s, parent, hs, hp, rfl⟩ := h
    exact ⟨s, parent, hs, hp.mono fun _ _ hp => hp.mono he, rfl⟩
  | namedType id =>
    obtain ⟨s, t, hs, ht, rfl⟩ := h
    have htype : ∀ id l, m.TypeAt cx id l → m.TypeAt cx' id l := fun _ _ h => h.mono he
    refine ⟨s, t, hs, { ht with container := ?_, space := ?_, definition := ?_, arguments := ?_ },
      rfl⟩
    · exact ht.container.mono htype
    · exact ht.space.mono fun _ _ hp => hp.mono he
    · exact ht.definition.mono htype
    · exact ht.arguments.imp htype
  | pointer id =>
    obtain ⟨s, pointee, l, hs, hp, hl, rfl⟩ := h
    exact ⟨s, pointee, l, hs, hp, hl.mono he, rfl⟩
  | method id =>
    obtain ⟨s, f, hs, hf, rfl⟩ := h
    have htype : ∀ id l, m.TypeAt cx id l → m.TypeAt cx' id l := fun _ _ h => h.mono he
    refine ⟨s, f, hs, { hf with declaring := ?_, returnType := ?_, parameters := ?_ }, rfl⟩
    · exact hf.declaring.mono he
    · exact hf.returnType.mono htype
    · exact hf.parameters.imp htype

/-- What a recipe yields fits the model. -/
theorem Yields.fits (h : recipe.Yields m en cx) : m.Fits en := by
  cases recipe with
  | file => exact h ▸ trivial
  | location place =>
    cases place with
    | none =>
      obtain ⟨_, _, rfl⟩ := h
      exact trivial
    | some place =>
      obtain ⟨_, _, _, _, rfl⟩ := h
      exact trivial
  | assembly =>
    obtain ⟨_, _, _, rfl⟩ := h
    exact trivial
  | space =>
    obtain ⟨_, _, _, _, rfl⟩ := h
    exact trivial
  | namedType id =>
    obtain ⟨s, t, hs, ht, rfl⟩ := h
    change t.location = m.firstDeclaration? t.symbol
    rw [ht.symbol, Model.firstDeclaration?_eq hs, ht.location]
  | pointer =>
    obtain ⟨_, _, _, _, _, _, rfl⟩ := h
    exact trivial
  | method id =>
    obtain ⟨s, f, hs, hf, rfl⟩ := h
    change f.location = m.firstDeclaration? f.symbol
    rw [hf.symbol, Model.firstDeclaration?_eq hs, hf.location]

/-- An object gives rise to one entity of a type. -/
theorem eq_of_slot {recipe' : Recipe} {type : EntityType} {source : Source}
    (h : recipe.slot = .object type source) (h' : recipe'.slot = .object type source) :
    recipe = recipe' := by
  cases recipe <;> cases h <;> cases recipe' <;> cases h' <;> rfl

theorem Yields.of_file {path : String} (h : recipe.Yields m (.file path) cx) :
    ∃ raw, recipe = .file raw ∧ path = slashed raw := by
  cases recipe with
  | file raw => exact ⟨raw, rfl, Entity.file.inj h⟩
  | location place => cases place <;> simp [Yields] at h
  | _ => simp [Yields] at h

theorem Yields.of_location {f : Label} {span : Option Span}
    (h : recipe.Yields m (.location f span) cx) :
    recipe.slot = .value ∧ ∃ path, cx.FileAt path f := by
  cases recipe with
  | location place =>
    cases place with
    | none =>
      obtain ⟨f', hf, heq⟩ := h
      cases heq
      exact ⟨rfl, _, hf⟩
    | some place =>
      obtain ⟨tree, f', -, hf, heq⟩ := h
      cases heq
      exact ⟨rfl, _, hf⟩
  | _ => simp [Yields] at h

theorem Yields.of_space {name : String} {parent : Option Label}
    (h : recipe.Yields m (.space id name parent) cx) : recipe = .space id ∧ ∃ s,
      m.symbol id = .ok s ∧ name = s.name ∧
        Option.Rel (m.SpaceAt cx) s.containingNamespace parent := by
  cases recipe with
  | space id' =>
    obtain ⟨s, parent', hs, hp, heq⟩ := h
    cases heq
    exact ⟨rfl, s, hs, rfl, hp⟩
  | location place => cases place <;> simp [Yields] at h
  | _ => simp [Yields] at h

/-- Only the recipe of a type yields it. -/
theorem Yields.of_namedType {t : NamedType} (h : recipe.Yields m (.namedType t) cx) :
    ∃ id s, recipe = .namedType id ∧ m.symbol id = .ok s ∧ NamedType.Stands m cx id t s := by
  cases recipe with
  | namedType id =>
    obtain ⟨s, t', hs, ht, heq⟩ := h
    obtain rfl := Entity.namedType.inj heq
    exact ⟨id, s, rfl, hs, ht⟩
  | location place => cases place <;> simp [Yields] at h
  | _ => simp [Yields] at h

/-- Only the recipe of a method yields it. -/
theorem Yields.of_method {f : Method} (h : recipe.Yields m (.method f) cx) :
    ∃ id s, recipe = .method id ∧ m.symbol id = .ok s ∧ Method.Stands m cx id f s := by
  cases recipe with
  | method id =>
    obtain ⟨s, f', hs, hf, heq⟩ := h
    obtain rfl := Entity.method.inj heq
    exact ⟨id, s, rfl, hs, hf⟩
  | location place => cases place <;> simp [Yields] at h
  | _ => simp [Yields] at h

/-- A recipe's location lies in a tree of the model. -/
theorem Yields.missingTree? {place : Option Declaration}
    (h : (Recipe.location place).Yields m en cx) : place.bind m.missingTree? = none := by
  cases place with
  | none => rfl
  | some place =>
    obtain ⟨tree, _, ht, _, _⟩ := h
    simp [Model.missingTree?, ht]

end Recipe

theorem Model.PlaceAt.mono {place : Option Declaration} (h : m.PlaceAt cx place l)
    (he : cx.events <+: cx'.events) : m.PlaceAt cx' place l := by
  obtain ⟨en, hy, hh⟩ := h
  exact ⟨en, Recipe.lasting_yields _ _ _ hy he, hh.mono he⟩

namespace Labelled

variable (hl : Labelled m scope cx)

include hl

theorem handed (h : cx.Handed en l) : cx.Keyed l :=
  hl.served _ _ h

theorem typeAt (h : m.TypeAt cx id l) : cx.Keyed l := by
  obtain ⟨recipe, _, c, hc, rfl⟩ := h
  exact hl.served _ c hc

theorem spaceAt (h : m.SpaceAt cx id l) : cx.Keyed l := by
  obtain ⟨en, hh⟩ := h.handed
  exact hl.handed hh

/-- The labels of an entity that was made from the model are defined. -/
theorem yields (h : recipe.Yields m en cx) : ∀ l ∈ en.labels, cx.Keyed l := by
  intro l hm
  cases recipe with
  | file path =>
    obtain rfl := h
    cases hm
  | location place =>
    cases place with
    | none =>
      obtain ⟨f, hf, rfl⟩ := h
      exact hl.handed (List.mem_singleton.1 hm ▸ hf)
    | some place =>
      obtain ⟨tree, f, _, hf, rfl⟩ := h
      exact hl.handed (List.mem_singleton.1 hm ▸ hf)
  | assembly name =>
    obtain ⟨path, f, hf, rfl⟩ := h
    exact hl.handed (List.mem_singleton.1 hm ▸ hf)
  | space id =>
    obtain ⟨s, parent, _, hp, rfl⟩ := h
    obtain ⟨_, _, hp⟩ := hp.of_mem hm
    exact hl.spaceAt hp
  | namedType id =>
    obtain ⟨s, t, _, ht, rfl⟩ := h
    simp only [Entity.labels, List.mem_append] at hm
    rcases hm with ((hm | hm) | hm) | hm
    · obtain ⟨_, _, hs⟩ := ht.space.of_mem hm
      exact hl.spaceAt hs
    · obtain ⟨_, _, hc⟩ := ht.container.of_mem hm
      exact hl.typeAt hc
    · obtain ⟨_, _, hd⟩ := ht.definition.of_mem hm
      exact hl.typeAt hd
    · obtain ⟨_, _, ha⟩ := ht.arguments.of_mem hm
      exact hl.typeAt ha
  | pointer id =>
    obtain ⟨s, pointee, l', _, _, hp, rfl⟩ := h
    exact hl.typeAt (List.mem_singleton.1 hm ▸ hp)
  | method id =>
    obtain ⟨s, f, _, hf, rfl⟩ := h
    simp only [Entity.labels, List.mem_cons, List.mem_append] at hm
    rcases hm with rfl | hm | hm
    · exact hl.typeAt hf.declaring
    · obtain ⟨_, _, hr⟩ := hf.returnType.of_mem hm
      exact hl.typeAt hr
    · obtain ⟨_, _, hp⟩ := hf.parameters.of_mem hm
      exact hl.typeAt hp

end Labelled

end TrapFacts
