import TrapFacts.Proofs.Unit.Closed
import TrapFacts.Proofs.Unit.Expansion
import TrapFacts.Proofs.Unit.Keys
import TrapFacts.Proofs.Unit.Standing

/-! The keys that a model has for its symbols, without any labels. -/

theorem List.Forall₂.map_eq {α β γ : Type} {R : α → β → Prop} {as : List α} {bs : List β}
    {f : α → γ} {g : β → γ} (h : List.Forall₂ R as bs) (hf : ∀ a, ∀ b ∈ bs, R a b → g b = f a) :
    bs.map g = as.map f := by
  induction h with
  | nil => rfl
  | cons hab _ ih =>
    rw [List.map_cons, List.map_cons, hf _ _ List.mem_cons_self hab,
      ih fun a b hb => hf a b (List.mem_cons_of_mem _ hb)]

namespace TrapFacts

variable {m : Model} {cx : Context} {id : SymbolId} {s : Symbol} {l : Label}

/-- The key of a location in the file of a path. -/
def locationKey (path : String) : Option Span → Key
  | some span =>
    .nest (Entity.file path).key (.text "," (.nest span.key (.literal ";sourcelocation")))
  | none => .text "loc," (.nest (Entity.file path).key (.text "," (.nest Span.zero.key .nil)))

/-- The key of a namespace, by its own name and those of the namespaces around it. -/
def spaceKey : List String → Key
  | [] => .nil
  | [name] => if name.isEmpty then .literal ";namespace" else .text name (.literal ";namespace")
  | name :: around => .nest (spaceKey around) (.text "." (.text name (.literal ";namespace")))

theorem spaceKey_cons {name : String} {around : List String} (h : around ≠ []) :
    spaceKey (name :: around) =
      .nest (spaceKey around) (.text "." (.text name (.literal ";namespace"))) := by
  obtain ⟨_, _, rfl⟩ := List.exists_cons_of_ne_nil h
  rfl

namespace Symbol

variable (s : Symbol) (id : SymbolId) (space type : SymbolId → Key)

/-- The key of a type, given those of the namespaces and of the other types. What is constructed is
known by its definition and its arguments, anything else by its name in its container, else in its
namespace. -/
def typeKey : Key :=
  if s.kind = .pointer then
    match s.pointedAt with
    | some pointee => .nest (type pointee) (.literal "*;type")
    | none => .nil
  else
    match s.constructedFrom? id, s.containingType, s.containingNamespace with
    | some definition, _, _ =>
      .nest (type definition) (.text "<"
        (Key.join "," (s.typeArguments.map fun a => .nest (type a) .nil) ++ .literal ">;type"))
    | none, some container, _ =>
      .nest (type container) (.text "." (.text s.name (.literal ";type")))
    | none, none, some around => .nest (space around) (.text "." (.text s.name (.literal ";type")))
    | none, none, none => .text s.name (.literal ";type")

/-- The key of a method, given those of the types. -/
def methodKey : Key :=
  match s.containingType with
  | some declaring => .nest (type declaring) (.text "." (.text s.name (.text "("
      (Key.join "," (s.parameters.map fun p => .nest (type p.type) .nil) ++ .literal ");method"))))
  | none => .nil

end Symbol

namespace Model

/-- The names of a namespace and those around it. One that comes back to itself has none. -/
def spaceNamesOn (m : Model) (id : SymbolId) (path : List SymbolId) : List String :=
  if hmem : id ∈ path then []
  else if hin : id.index < m.symbols.length then
    let s := m.symbols[id.index]
    match s.containingNamespace with
    | some around => s.name :: m.spaceNamesOn around (id :: path)
    | none => [s.name]
  else []
termination_by (m.offPath path).length
decreasing_by exact offPath_cons_lt hmem hin

def spaceNames (m : Model) (id : SymbolId) : List String :=
  m.spaceNamesOn id []

/-- The key of a type. A type that comes back to itself has none. -/
def typeKeyOn (m : Model) (id : SymbolId) (path : List SymbolId) : Key :=
  if hmem : id ∈ path then .nil
  else if hin : id.index < m.symbols.length then
    m.symbols[id.index].typeKey id (fun a => spaceKey (m.spaceNames a))
      fun a => m.typeKeyOn a (id :: path)
  else .nil
termination_by (m.offPath path).length
decreasing_by exact offPath_cons_lt hmem hin

def symbolKey (m : Model) (id : SymbolId) : Key :=
  match m.symbol id with
  | .ok s => if s.kind.isMethod then s.methodKey fun a => m.typeKeyOn a [] else m.typeKeyOn id []
  | .error _ => .nil

/-- No namespace without a parent is named like a label in braces with the name of a nested
namespace behind it. -/
def Unambiguous (m : Model) : Prop :=
  ∀ a b s t, m.IsSpace a → m.symbol a = .ok s → s.containingNamespace = none →
    m.IsSpace b → m.symbol b = .ok t → t.containingNamespace ≠ none →
      ∀ l : Label, s.name ≠ l.inside t.name

theorem index_of_symbol (h : m.symbol id = .ok s) :
    ∃ hin : id.index < m.symbols.length, m.symbols[id.index] = s := by
  unfold symbol at h
  split at h
  · next hs =>
    cases h
    exact List.getElem?_eq_some_iff.1 hs
  · cases h

/-- A model in which no name begins with a brace is not ambiguous. -/
theorem unambiguous_of_head (h : ∀ s ∈ m.symbols, s.name.toList.head? ≠ some '\x7b') :
    m.Unambiguous := by
  intro a b s t _ hs _ _ _ _ l hname
  obtain ⟨hin, rfl⟩ := index_of_symbol hs
  refine h _ (List.getElem_mem hin) ?_
  simp [hname, Label.inside]

/-- The names of a namespace are its own and then those of what contains it. -/
theorem spaceNamesOn_eq {path : List SymbolId} (hmem : id ∉ path) (h : m.symbol id = .ok s) :
    m.spaceNamesOn id path =
      s.name :: s.containingNamespace.elim [] (m.spaceNamesOn · (id :: path)) := by
  obtain ⟨hin, rfl⟩ := index_of_symbol h
  rw [spaceNamesOn, dif_neg hmem, dif_pos hin]
  cases hn : m.symbols[id.index].containingNamespace <;> simp [hn]

/-- The key of a type is made from those of the symbols that it names. -/
theorem typeKeyOn_eq {path : List SymbolId} (hmem : id ∉ path) (h : m.symbol id = .ok s) :
    m.typeKeyOn id path =
      s.typeKey id (fun a => spaceKey (m.spaceNames a)) fun a => m.typeKeyOn a (id :: path) := by
  obtain ⟨hin, rfl⟩ := index_of_symbol h
  rw [typeKeyOn, dif_neg hmem, dif_pos hin]

end Model

section

variable {f : Label → Key} {space type : SymbolId → Key}

theorem Key.map_expand_ofLabel {as : List SymbolId} {ls : List Label}
    (h : List.Forall₂ (m.TypeAt cx) as ls) (ht : ∀ a, ∀ l ∈ ls, m.TypeAt cx a l → f l = type a) :
    (ls.map ofLabel).map (expand f) = as.map fun a => .nest (type a) .nil := by
  rw [List.map_map]
  exact h.map_eq fun a l hl hal => congrArg (nest · nil) (ht a l hl hal)

theorem NamedType.key_constructed {t : NamedType} {definition : Label}
    (hd : t.definition = some definition) :
    t.key = .label definition (.text "<"
      (Key.join "," (t.arguments.map Key.ofLabel) ++ .literal ">;type")) := by
  simp only [key, hd]

theorem NamedType.key_named {t : NamedType} {parent : Label} (hd : t.definition = none)
    (hp : t.parent? = some parent) :
    t.key = .label parent (.text "." (.text t.name (.literal ";type"))) := by
  simp only [key, hd, hp]

/-- The key of a constructed type expands to that of its symbol. -/
theorem NamedType.Stands.expand_constructed {t : NamedType} {definition : Label}
    (h : NamedType.Stands m cx id t s) (hk : s.kind ≠ .pointer)
    (hd : t.definition = some definition)
    (ht : ∀ a, ∀ l ∈ t.key.labels, m.TypeAt cx a l → f l = type a) :
    t.key.expand f = s.typeKey id space type := by
  have hkey := key_constructed hd
  have hlabels : ∀ l, l ∈ t.key.labels ↔ l = definition ∨ l ∈ t.arguments := by
    simp [hkey, Key.labels, Key.labels_append, Key.labels_join, Key.ofLabel, Key.literal,
      List.flatMap_map]
  have hdefinition := h.definition
  have harguments := h.arguments
  rw [hd] at hdefinition harguments
  obtain ⟨d, hfrom, hd⟩ := hdefinition.of_mem (Option.mem_toList.2 rfl)
  rw [Symbol.typeKey, if_neg hk, hfrom, hkey]
  simp only [Key.expand, Key.expand_append, Key.expand_join,
    ht d definition ((hlabels _).2 (.inl rfl)) hd,
    Key.map_expand_ofLabel harguments fun a l hl => ht a l ((hlabels l).2 (.inr hl))]
  rfl

/-- The key of a type with a name expands to that of its symbol. -/
theorem NamedType.Stands.expand_named {t : NamedType} (h : NamedType.Stands m cx id t s)
    (hk : s.kind ≠ .pointer) (hd : t.definition = none)
    (hs : ∀ a, s.containingNamespace = some a →
      ∀ l ∈ t.key.labels, m.SpaceAt cx a l → f l = space a)
    (ht : ∀ a, ∀ l ∈ t.key.labels, m.TypeAt cx a l → f l = type a) :
    t.key.expand f = s.typeKey id space type := by
  have hdefinition := h.definition
  have hcontainer := h.container
  have hspace := h.space
  rw [hd] at hdefinition
  rw [Symbol.typeKey, if_neg hk, hdefinition.eq_none]
  cases hc : t.container with
  | some container =>
    rw [hc] at hcontainer
    obtain ⟨c, hfrom, hc'⟩ := hcontainer.of_mem (Option.mem_toList.2 rfl)
    have hkey := key_named hd (show t.parent? = some container by simp [parent?, hc])
    rw [hfrom, hkey, Key.expand, ht c container (by simp [hkey, Key.labels]) hc', h.name]
    rfl
  | none =>
    rw [hc] at hcontainer hspace
    rw [hcontainer.eq_none]
    cases hn : t.space with
    | some around =>
      rw [hn] at hspace
      obtain ⟨a, hfrom, ha⟩ := hspace.of_mem (Option.mem_toList.2 rfl)
      have hkey := key_named hd (show t.parent? = some around by simp [parent?, hc, hn])
      have hfrom : s.containingNamespace = some a := hfrom
      rw [hfrom, hkey, Key.expand, hs a hfrom around (by simp [hkey, Key.labels]) ha, h.name]
      rfl
    | none =>
      rw [hn] at hspace
      rw [show s.containingNamespace = none from hspace.eq_none]
      simp only [key, hd, parent?, hc, hn, h.name]
      rfl

/-- Spelled out, the key of a named type is the one that the model has for it. -/
theorem NamedType.Stands.expand {t : NamedType} (h : NamedType.Stands m cx id t s)
    (hk : s.kind ≠ .pointer)
    (hs : ∀ a, s.containingNamespace = some a →
      ∀ l ∈ t.key.labels, m.SpaceAt cx a l → f l = space a)
    (ht : ∀ a, ∀ l ∈ t.key.labels, m.TypeAt cx a l → f l = type a) :
    t.key.expand f = s.typeKey id space type := by
  cases hd : t.definition with
  | some definition => exact h.expand_constructed hk hd ht
  | none => exact h.expand_named hk hd hs ht

/-- Spelled out, the key of a type is the one that the model has for it. -/
theorem Recipe.Yields.expand {recipe : Recipe} {en : Entity} (h : recipe.Yields m en cx)
    (hr : m.typeRecipe? id = some recipe) (hid : m.symbol id = .ok s)
    (hs : ∀ a, s.containingNamespace = some a →
      ∀ l ∈ en.key.labels, m.SpaceAt cx a l → f l = space a)
    (ht : ∀ a, ∀ l ∈ en.key.labels, m.TypeAt cx a l → f l = type a) :
    en.key.expand f = s.typeKey id space type := by
  rw [Model.typeRecipe?, hid] at hr
  dsimp only at hr
  split at hr
  · next hk =>
    cases hr
    obtain ⟨s', pointee, l, hs', hp, hl, rfl⟩ := h
    obtain rfl := Except.ok.inj (hid.symm.trans hs')
    rw [Symbol.typeKey, if_pos hk, hp, Entity.key, Key.expand, ht pointee l List.mem_cons_self hl]
    rfl
  · next hk =>
    split at hr
    · cases hr
      obtain ⟨s', t, hs', hstands, rfl⟩ := h
      obtain rfl := Except.ok.inj (hid.symm.trans hs')
      exact hstands.expand hk hs ht
    · cases hr

/-- Spelled out, the key of a method is the one that the model has for it. -/
theorem Method.Stands.expand {g : Method} (h : Method.Stands m cx id g s)
    (ht : ∀ a, ∀ l ∈ g.key.labels, m.TypeAt cx a l → f l = type a) :
    g.key.expand f = s.methodKey type := by
  have hlabels : ∀ l, l ∈ g.key.labels ↔ l = g.declaring ∨ l ∈ g.parameters := by
    simp [key, Key.labels, Key.labels_append, Key.labels_join, Key.ofLabel, Key.literal,
      List.flatMap_map]
  rw [Symbol.methodKey, h.declaringSymbol]
  simp only [key, Key.expand, Key.expand_append, Key.expand_join, h.name,
    ht _ g.declaring ((hlabels _).2 (.inl rfl)) h.declaring,
    Key.map_expand_ofLabel h.parameters fun a l hl => ht a l ((hlabels l).2 (.inr hl)),
    List.map_map]
  rfl

end

end TrapFacts
