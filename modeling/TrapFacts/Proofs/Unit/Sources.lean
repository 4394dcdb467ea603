import TrapFacts.Proofs.Unit.Obeys

/-! Factories make entities as the model has them. -/

namespace TrapFacts

namespace ScopedUnit

variable {u : ScopedUnit} {cx : Context} {fails : Failure → Prop} {id : SymbolId}

/-- The symbols of the unit lead to no others. -/
abbrev Closed (u : ScopedUnit) : Prop :=
  TrapFacts.Closed u.model u.scope u.unit u.within

theorem typeRecipe?_of_namedType {m : Model} {s : Symbol} (h : m.IsNamedType id s) :
    m.typeRecipe? id = some (.namedType id) := by
  simp [Model.typeRecipe?, h.1, h.2.1, h.2.2]

theorem typeRecipe?_of_pointer {m : Model} {s : Symbol} (h : m.IsPointer id s) :
    m.typeRecipe? id = some (.pointer id) := by
  simp [Model.typeRecipe?, h.1, h.2]

/-- A file can always be made. -/
theorem file_obeys (path : String) :
    u.Obeys (Prog.entity (.file path)) cx (fun c cx' => cx'.FileAt path c.label) fails := by
  refine (Obeys.entity (.file path) trivial fun _ he => False.elim he).mono
    (fun c cx' hc => ?_) fun _ hf => hf
  obtain ⟨hs, hy⟩ := hc
  have hy : c.entity = .file (slashed path) := hy rfl
  change .served .value ⟨c.label, .file (slashed path)⟩ ∈ cx'.events
  rw [← hy]
  exact hs

theorem space_obeys (hid : u.model.IsSpace id) :
    u.Obeys (Prog.entity (.space id)) cx (fun c cx' => u.model.SpaceAt cx' id c.label)
      fun _ => True := by
  refine (Obeys.entity (.space id) hid fun _ _ => trivial).mono (fun c cx' hc => ?_) fun _ hf => hf
  obtain ⟨hserved, hy⟩ := hc
  obtain ⟨s, parent, hs, hp, hen⟩ := hy rfl
  have hh : cx'.Handed (.space id s.name parent) c.label := by
    rw [← hen]
    exact hserved
  generalize hn : s.containingNamespace = container at hp
  cases hp with
  | none => exact .root hs hn hh
  | some hp => exact .child hs hn hp hh

theorem typeLabel_obeys (hid : u.within id) :
    u.Obeys (u.model.typeLabel id) cx (fun l cx' => u.model.TypeAt cx' id l) fun _ => True := by
  refine Obeys.read (fun _ _ => trivial) fun s hs => ?_
  split
  · next hk =>
    have hp : u.model.IsPointer id s := ⟨hs, hk⟩
    refine (Obeys.entity (.pointer id) ⟨hid, s, hp⟩ fun _ _ => trivial).bind
      fun c cx₂ _ hc => .pure ?_
    exact ⟨_, typeRecipe?_of_pointer hp, c, hc.1, rfl⟩
  · next hk =>
    split
    · next ht =>
      have hn : u.model.IsNamedType id s := ⟨hs, ht, hk⟩
      refine (Obeys.entity (.namedType id) ⟨hid, s, hn⟩ fun _ _ => trivial).bind
        fun c cx₂ _ hc => .pure ?_
      exact ⟨_, typeRecipe?_of_namedType hn, c, hc.1, rfl⟩
    · exact .fail trivial

theorem typeLabel?_obeys {id : Option SymbolId} (hid : ∀ i, id = some i → u.within i) :
    u.Obeys (u.model.typeLabel? id) cx (fun l cx' => Option.Rel (u.model.TypeAt cx') id l)
      fun _ => True := by
  cases id with
  | none => exact .pure .none
  | some id => exact (typeLabel_obeys (hid id rfl)).bind fun _ _ _ hl => .pure (.some hl)

theorem spaceLabel?_obeys {id : Option SymbolId} (hid : ∀ i, id = some i → u.model.IsSpace i) :
    u.Obeys (Model.spaceLabel? id) cx (fun l cx' => Option.Rel (u.model.SpaceAt cx') id l)
      fun _ => True := by
  cases id with
  | none => exact .pure .none
  | some id => exact (space_obeys (hid id rfl)).bind fun _ _ _ hl => .pure (.some hl)

theorem typeLabels_obeys {ids : List SymbolId} (hids : ∀ id ∈ ids, u.within id) :
    u.Obeys (Prog.collect ids u.model.typeLabel) cx
      (fun ls cx' => List.Forall₂ (u.model.TypeAt cx') ids ls) fun _ => True :=
  .collect (fun _ _ _ _ h he => h.mono he) fun id hid _ _ => typeLabel_obeys (hids id hid)

theorem makeSpace_obeys (id : SymbolId) :
    u.Obeys (u.model.makeSpace id) cx ((Recipe.space id).Yields u.model) fun _ => True := by
  refine Obeys.read (fun _ _ => trivial) fun s hs => ?_
  refine (spaceLabel?_obeys fun a ha => ⟨id, s, hs, .inr ha⟩).bind fun parent _ _ hp => ?_
  exact .pure ⟨s, parent, hs, hp, rfl⟩

theorem makeAssembly_obeys (name : String) :
    u.Obeys (u.model.makeAssembly name) cx ((Recipe.assembly name).Yields u.model)
      fun _ => False := by
  refine Obeys.assemblyFile fun file => ?_
  refine (file_obeys _).bind fun c _ _ hc => .pure ⟨_, c.label, hc, rfl⟩

/-- A location is made unless its tree is missing. -/
theorem makeLocation_obeys (place : Option Declaration) :
    u.Obeys (u.model.makeLocation place) cx ((Recipe.location place).Yields u.model)
      ((Recipe.location place).Fails u.model) := by
  cases place with
  | none => exact (file_obeys "").bind fun c _ _ hc => .pure ⟨c.label, hc, rfl⟩
  | some place =>
    refine Obeys.read (fun e he => ?_) fun tree ht => ?_
    · unfold Model.tree at he
      split at he
      · cases he
      · next hn =>
        obtain rfl := Except.error.inj he
        exact ⟨by simp [Model.missingTree?, Model.tree, hn], rfl⟩
    · exact (file_obeys _).bind fun c _ _ hc => .pure ⟨tree, c.label, ht, hc, rfl⟩

variable (hc : u.Closed)

include hc

theorem makeNamedType_obeys (hw : u.Within (.namedType id)) :
    u.Obeys (u.model.makeNamedType id) cx ((Recipe.namedType id).Yields u.model)
      fun _ => True := by
  obtain ⟨hid, s', hn⟩ := hw
  refine Obeys.read (fun _ _ => trivial) fun s hs => ?_
  obtain rfl : s' = s := Except.ok.inj (hn.1.symm.trans hs)
  refine (typeLabel?_obeys fun c => hc.container id s' c hid hn).bind
    fun container cx₂ _ hcontainer => ?_
  have hspaces : ∀ a, (if container.isNone then s'.containingNamespace else none) = some a →
      u.model.IsSpace a :=
    fun a ha => ⟨id, s', hn.1, .inr (Option.ite_none_right_eq_some.1 ha).2⟩
  refine (spaceLabel?_obeys hspaces).bind fun space cx₃ hf₃ hspace => ?_
  refine (typeLabel?_obeys fun d => hc.definition id s' d hid hn).bind
    fun definition cx₄ hf₄ hdefinition => ?_
  refine (typeLabels_obeys fun a ha => ?_).bind fun arguments cx₅ hf₅ harguments => .pure ?_
  · split at ha
    · next hd =>
      refine hc.arguments id s' hid hn ?_ a ha
      generalize s'.constructedFrom? id = d at hdefinition
      cases hdefinition with
      | none => cases hd
      | some => rfl
    · cases ha
  · have he₅ := hf₅.events
    have he₄ := hf₄.events.trans he₅
    have he₃ := hf₃.events.trans he₄
    exact ⟨s', _, hs, {
      symbol := rfl, kind := rfl, name := rfl, location := rfl, arguments := harguments
      container := hcontainer.mono fun _ _ h => h.mono he₃
      space := hspace.mono fun _ _ h => h.mono he₄
      definition := hdefinition.mono fun _ _ h => h.mono he₅ }, rfl⟩

theorem makePointer_obeys (hw : u.Within (.pointer id)) :
    u.Obeys (u.model.makePointer id) cx ((Recipe.pointer id).Yields u.model) fun _ => True := by
  obtain ⟨hid, s', hp⟩ := hw
  refine Obeys.read (fun _ _ => trivial) fun s hs => ?_
  obtain rfl : s' = s := Except.ok.inj (hp.1.symm.trans hs)
  split
  · exact .fail trivial
  · next pointee hpointee =>
    refine (typeLabel_obeys (hc.pointee id s' pointee hid hp hpointee)).bind
      fun l _ _ hl => .pure ?_
    exact ⟨s', pointee, l, hs, hpointee, hl, rfl⟩

theorem makeMethod_obeys (hw : u.Within (.method id)) :
    u.Obeys (u.model.makeMethod id) cx ((Recipe.method id).Yields u.model) fun _ => True := by
  obtain ⟨hid, s', hm⟩ := hw
  refine Obeys.read (fun _ _ => trivial) fun s hs => ?_
  obtain rfl : s' = s := Except.ok.inj (hm.1.symm.trans hs)
  split
  · exact .fail trivial
  · next owner howner =>
    refine (typeLabel_obeys (hc.owner id s' owner hid hm howner)).bind
      fun declaring cx₂ _ hdeclaring => ?_
    refine (typeLabel?_obeys fun r => hc.returnType id s' r hid hm).bind
      fun returnType cx₃ hf₃ hreturn => ?_
    have hparameters : u.Obeys (Prog.collect s'.parameters fun p => u.model.typeLabel p.type) cx₃
        (fun ls cx' => List.Forall₂ (fun p l => u.model.TypeAt cx' p.type l) s'.parameters ls)
        fun _ => True :=
      .collect (fun _ _ _ _ h he => h.mono he) fun p hp _ _ =>
        typeLabel_obeys (hc.parameters id s' hid hm p hp)
    refine hparameters.bind fun parameters cx₄ hf₄ hparams => .pure ?_
    have he₄ := hf₄.events
    exact ⟨s', _, hs, {
      symbol := rfl, kind := rfl, name := rfl, location := rfl, declaringSymbol := howner
      declaring := hdeclaring.mono (hf₃.events.trans he₄)
      returnType := hreturn.mono fun _ _ h => h.mono he₄
      parameters := List.forall₂_map_left_iff.2 hparams }, rfl⟩

/-- Every factory within reach obeys, and yields what its recipe is for. -/
theorem factory_obeys {recipe : Recipe} (hw : u.Within recipe) :
    u.Obeys (u.model.factory recipe) cx (recipe.Yields u.model) (recipe.Fails u.model) := by
  cases recipe with
  | file path => exact .pure rfl
  | location place => exact makeLocation_obeys place
  | assembly name => exact makeAssembly_obeys name
  | space id => exact makeSpace_obeys id
  | namedType id => exact makeNamedType_obeys hc hw
  | pointer id => exact makePointer_obeys hc hw
  | method id => exact makeMethod_obeys hc hw

end ScopedUnit

end TrapFacts
