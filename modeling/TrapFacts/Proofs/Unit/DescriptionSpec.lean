import TrapFacts.Proofs.Engine.StatesAbout
import TrapFacts.Proofs.Unit.Obeys
import TrapFacts.Proofs.Unit.StatesOwn

/-! What a description says of its entity, kind by kind. -/

namespace TrapFacts

variable {m : Model} {scope : Scope} {cx cx' : Context} {l : Label} {en : Entity}

/-- A fact that relates a label to another one. -/
def Tuple.relating (relation : String) (l other : Label) : Tuple :=
  ⟨relation, [.label l, .label other]⟩

def relatedTuples (relation : String) (l : Label) (other : Option Label) : List Tuple :=
  other.toList.map (.relating relation l)

/-- The facts about parameters: one for each, under a label of its own. -/
def parameterTuples (parameters : List Parameter) (types owns : List Label) (l : Label) :
    List Tuple :=
  ((parameters.zip types).zipIdx.zip owns).map fun (((parameter, type), index), own) =>
    ⟨"params", [.label own, .text parameter.name, .label type, .index index, .label l]⟩

/-- The places of a symbol that a unit tells: all if it defines the symbol, else none. -/
def Scope.places (scope : Scope) (m : Model) (id : SymbolId) : List Declaration :=
  match scope.defines m id, m.symbol id with
  | .ok true, .ok s => s.locations
  | _, _ => []

/-- In a unit that defines it, a symbol has all its places. -/
theorem Scope.places_eq {id : SymbolId} {s : Symbol} (hd : scope.defines m id = .ok true)
    (hs : m.symbol id = .ok s) : scope.places m id = s.locations := by
  simp [places, hd, hs]

theorem Scope.places_eq_nil {id : SymbolId} (hd : scope.defines m id ≠ .ok true) :
    scope.places m id = [] := by
  unfold places
  split
  · next hdefined _ => exact absurd hdefined hd
  · rfl

namespace Model

/-- Every declaration lies in a tree of the model. -/
def Sited (m : Model) : Prop :=
  ∀ s ∈ m.symbols, ∀ place ∈ s.locations, ∃ tree, m.tree place.tree = .ok tree

/-- Labels that stand for the places of declarations, one for each, in order. -/
def PlacesAt (m : Model) (cx : Context) : List Declaration → List Label → Prop :=
  List.Forall₂ fun place => m.PlaceAt cx (some place)

/-- The fact about what an accessor belongs to, if it belongs to anything. -/
def accessorTuples (m : Model) (kind : SymbolKind) (owner : Option SymbolId) (l : Label) :
    List Tuple :=
  if kind = .accessor then
    owner.toList.map fun owner => ⟨"accessors", [.label l, .text (m.displayName owner)]⟩
  else []

/-- What is said of a named type. -/
structure TypeFacts (m : Model) (scope : Scope) (t : NamedType) (l : Label) (cx : Context) :
    Prop where
  factsAbout : ∃ places, m.PlacesAt cx
      (if t.kind = .error ∨ t.definition.isSome then [] else scope.places m t.symbol) places ∧
    cx.factsAbout l = ⟨"types", [.label l, .index (t.kind.typeNumber?.getD 0), .text t.name]⟩ ::
      (relatedTuples "parent_namespace" l t.space ++ relatedTuples "nested_types" l t.container ++
        relatedTuples "constructed_from" l (if t.kind = .error then none else t.definition) ++
        places.map (.relating "type_location" l))
  missing : t.kind = .error → .missing (m.displayName t.symbol) ∈ cx.events

/-- What is said of a method. The places of an accessor that belongs to nothing are left out. -/
def MethodFacts (m : Model) (scope : Scope) (f : Method) (l : Label) (cx : Context) : Prop :=
  ∃ s owns places, m.symbol f.symbol = .ok s ∧
    owns.length = (s.parameters.zip f.parameters).length ∧
    m.PlacesAt cx (if f.kind = .accessor ∧ s.associatedSymbol = none then []
      else scope.places m f.symbol) places ∧
    cx.factsAbout l = ⟨"methods", [.label l, .text f.name, .label f.declaring]⟩ ::
      (relatedTuples "returns" l f.returnType ++
        parameterTuples s.parameters f.parameters owns l ++
        m.accessorTuples f.kind s.associatedSymbol l ++
        places.map (.relating "method_location" l))

/-- What is said of an entity when its description is over. A method of which all is not said had
an error reported. -/
def Shows (m : Model) (scope : Scope) : Entity → Label → Context → Prop
  | .file path, l, cx => cx.factsAbout l = ⟨"files", [.label l, .text path]⟩ ::
      if !path.isEmpty && scope.ownsFile path then
        (m.trees.find? (·.path == path)).toList.map fun tree =>
          ⟨"numlines", [.label l, .index tree.lines]⟩
      else []
  | .location file span, l, cx => cx.factsAbout l = [⟨"locations_default",
      .label l :: .label file :: (span.getD .zero).numbers.map Value.index⟩]
  | .assembly name _ file, l, cx =>
    cx.factsAbout l = [⟨"assemblies", [.label l, .label file, .text name]⟩]
  | .space _ name parent, l, cx => cx.factsAbout l = ⟨"namespaces", [.label l, .text name]⟩ ::
      relatedTuples "parent_namespace" l parent
  | .namedType t, l, cx => m.Sited → m.Fits (.namedType t) → m.TypeFacts scope t l cx
  | .pointer symbol pointee, l, cx => cx.factsAbout l =
      [⟨"types", [.label l, .index (SymbolKind.pointer.typeNumber?.getD 0),
        .text (m.displayName symbol)]⟩, .relating "pointer_referent_type" l pointee]
  | .method f, l, cx => cx.Erred ∨ m.MethodFacts scope f l cx
  | .custom _, _, _ => True

theorem Sited.missingTree? {id : SymbolId} {s : Symbol} {place : Declaration} (h : m.Sited)
    (hs : m.symbol id = .ok s) (hp : place ∈ s.locations) : m.missingTree? place = none := by
  have hmem : s ∈ m.symbols := by
    unfold symbol at hs
    split at hs
    · next hget => exact Except.ok.inj hs ▸ List.mem_of_getElem? hget
    · cases hs
  obtain ⟨tree, ht⟩ := h s hmem place hp
  simp [Model.missingTree?, ht]

theorem PlacesAt.mono {places : List Declaration} {ls : List Label}
    (h : m.PlacesAt cx places ls) (he : cx.events <+: cx'.events) : m.PlacesAt cx' places ls :=
  h.imp fun _ _ hp => hp.mono he

/-- What is shown about an entity stays so, if no more facts about it follow. -/
theorem Shows.lasting (h : m.Shows scope en l cx) (he : cx.events <+: cx'.events)
    (hs : cx'.factsAbout l = cx.factsAbout l) : m.Shows scope en l cx' := by
  cases en with
  | custom => trivial
  | namedType t =>
    intro hsited hfits
    obtain ⟨⟨places, hplaces, hfacts⟩, hmissing⟩ := h hsited hfits
    exact ⟨⟨places, hplaces.mono he, hs.trans hfacts⟩, fun hk => he.subset (hmissing hk)⟩
  | method f =>
    rcases h with herr | ⟨s, owns, places, hsym, howns, hplaces, hfacts⟩
    · exact .inl (herr.mono he)
    · exact .inr ⟨s, owns, places, hsym, howns, hplaces.mono he, hs.trans hfacts⟩
  | _ => exact hs.trans h

end Model

/-- Files and locations, which are made of nothing else. -/
def Recipe.IsSite : Recipe → Prop
  | .file _ | .location _ => True
  | _ => False

namespace Model

/-- What the descriptions of a unit show. It matters that sites are made as the model has them. -/
def descriptionSpec (m : Model) (scope : Scope) : DescriptionSpec where
  shows := m.Shows scope
  yields recipe en cx := recipe.IsSite → recipe.Yields m en cx
  fails recipe e := recipe.IsSite → recipe.Fails m e
  lasting h he hs := h.lasting he hs
  yielded h he hsite := Recipe.lasting_yields _ _ _ (h hsite) he
  idle := by
    intro en l cx h
    cases en with
    | custom => trivial
    | _ => cases h

variable {deeper : Option Runner} {drain : Context → Reply Unit}
  (hdeeper : ∀ run, deeper = some run →
    RunnerShows (.ofModel m scope) (facts m scope) (m.descriptionSpec scope) run)

include hdeeper

/-- A file is made under the label of its path. -/
theorem file_comes (hs : cx.FactsBehind) (path : String) :
    ((World.ofModel m scope).eval deeper drain (.entity (.file path)) cx).Comes
      (fun c cx' => cx'.FileAt path c.label) fun _ => False := by
  refine (World.eval_comes (World.ofModel_statesOwn m scope) hdeeper hs).mono ?_ ?_
  · rintro c cx' ⟨hserved, hy⟩
    have hentity : c.entity = .file (slashed path) := hy rfl trivial
    change .served .value ⟨c.label, .file (slashed path)⟩ ∈ cx'.events
    rw [← hentity]
    exact hserved
  · exact fun e he => he trivial

/-- A factory comes to what the specification says its recipe yields. -/
theorem factory_comes (hs : cx.FactsBehind) (recipe : Recipe) :
    ((World.ofModel m scope).eval deeper drain (m.factory recipe) cx).Comes
      ((m.descriptionSpec scope).yields recipe) ((m.descriptionSpec scope).fails recipe) := by
  cases recipe with
  | file path => exact ⟨by rintro _ ⟨⟩ _; rfl, by rintro _ ⟨⟩⟩
  | location place =>
    cases place with
    | none =>
      suffices hcomes : ((World.ofModel m scope).eval deeper drain (m.factory (.location none))
          cx).Comes (fun en cx' => (Recipe.location none).Yields m en cx') (fun _ => False) from
        hcomes.mono (fun _ _ hy _ => hy) fun _ hf => hf.elim
      change ((World.ofModel m scope).eval deeper drain ((Prog.entity (.file "")).bind _) cx).Comes
        _ _
      rw [World.eval_bind]
      refine (file_comes hdeeper hs "").andThen fun c cx₁ _ hc => ⟨?_, by rintro _ ⟨⟩⟩
      rintro _ ⟨⟩
      exact ⟨c.label, hc, rfl⟩
    | some place =>
      change ((World.ofModel m scope).eval deeper drain
        ((Prog.ofExcept (m.tree place.tree)).bind _) cx).Comes _ _
      cases ht : m.tree place.tree with
      | error e =>
        refine ⟨by rintro _ ⟨⟩, ?_⟩
        rintro _ ⟨⟩ _ _
        unfold Model.tree at ht
        split at ht
        · cases ht
        · next hn =>
          obtain rfl := Except.error.inj ht
          exact ⟨by simp [missingTree?, Model.tree, hn], rfl⟩
      | ok tree =>
        suffices hcomes : ((World.ofModel m scope).eval deeper drain
            (Prog.ofExcept (.ok tree) >>= _) cx).Comes
            (fun en cx' => (Recipe.location (some place)).Yields m en cx') (fun _ => False) from
          hcomes.mono (fun _ _ hy _ => hy) fun _ hf => hf.elim
        change ((World.ofModel m scope).eval deeper drain ((Prog.entity (.file tree.path)).bind _)
          cx).Comes _ _
        rw [World.eval_bind]
        refine (file_comes hdeeper hs _).andThen fun c cx₁ _ hc => ⟨?_, by rintro _ ⟨⟩⟩
        rintro _ ⟨⟩
        exact ⟨tree, c.label, ht, hc, rfl⟩
  | _ => exact ⟨fun _ _ hsite => hsite.elim, fun _ _ _ hsite => hsite.elim⟩

end Model

/-- What a program of the unit says of one label. -/
abbrev UnitStatesAbout {α : Type} (m : Model) (scope : Scope) (l : Label) (p : Prog α)
    (cx : Context)
    (good : α → Context → Prop) (bad : Failure → Context → Prop) : Prop :=
  StatesAbout (.ofModel m scope) (facts m scope) (m.descriptionSpec scope) l p cx good bad

namespace UnitStatesAbout

variable {bad : Failure → Context → Prop}

theorem fact {relation : String} (args : List Value) (hr : relation ≠ "type_arguments")
    (hp : relation ≠ "params") :
    UnitStatesAbout m scope l (Prog.fact relation (.label l :: args)) cx
      (fun _ cx' => cx'.factsAbout l = cx.factsAbout l ++ [⟨relation, .label l :: args⟩]) bad := by
  refine StatesAbout.fact (fun l' => ?_) fun hfacts => .pure hfacts
  constructor
  · rintro ⟨-, hfirst | ⟨hparams, -⟩⟩
    · cases hfirst
      rfl
    · exact absurd hparams hp
  · rintro rfl
    exact ⟨hr, .inl rfl⟩

theorem relatedFact {relation : String} (other : Option Label) (hr : relation ≠ "type_arguments")
    (hp : relation ≠ "params") :
    UnitStatesAbout m scope l (relatedFact relation l other) cx
      (fun _ cx' => cx'.factsAbout l = cx.factsAbout l ++ relatedTuples relation l other) bad := by
  cases other with
  | none => exact .pure (List.append_nil _).symm
  | some other => exact fact _ hr hp

/-- Each place is told under its label, in order, up to one whose tree is missing. -/
theorem locationFacts {relation : String} (places : List Declaration)
    (hr : relation ≠ "type_arguments") (hp : relation ≠ "params") :
    UnitStatesAbout m scope l (locationFacts relation l places) cx
      (fun _ cx' => ∃ ls, m.PlacesAt cx' places ls ∧
        cx'.factsAbout l = cx.factsAbout l ++ ls.map (.relating relation l))
      fun _ _ => ∃ place ∈ places, m.missingTree? place = some place.tree := by
  induction places generalizing cx with
  | nil => exact .pure ⟨[], .nil, (List.append_nil _).symm⟩
  | cons place places ih =>
    have hplace : UnitStatesAbout m scope l (.entity (.location (some place))) cx
        (fun c cx₁ => m.PlaceAt cx₁ (some place) c.label ∧ cx₁.factsAbout l = cx.factsAbout l)
        fun _ _ => ∃ p ∈ place :: places, m.missingTree? p = some p.tree := by
      refine (StatesAbout.entity (World.ofModel_statesOwn m scope)
        (.location (some place))).mono ?_ ?_
      · rintro c cx₁ ⟨⟨hserved, hy⟩, hfacts⟩
        exact ⟨⟨c.entity, hy rfl trivial, hserved⟩, hfacts⟩
      · rintro e cx₁ ⟨hf, -⟩
        exact ⟨place, List.mem_cons_self, (hf trivial).1⟩
    have hhead : UnitStatesAbout m scope l (do
        let location ← Prog.entity (.location (some place))
        Prog.fact relation [.label l, .label location.label]) cx
        (fun _ cx₁ => ∃ at_, m.PlaceAt cx₁ (some place) at_ ∧
          cx₁.factsAbout l = cx.factsAbout l ++ [.relating relation l at_])
        fun _ _ => ∃ p ∈ place :: places, m.missingTree? p = some p.tree := by
      refine hplace.bind fun c cx₁ _ hc => ?_
      refine (fact [.label c.label] hr hp).framed.mono (fun _ cx₂ h => ?_) fun _ _ hb => hb
      exact ⟨c.label, hc.1.mono h.1, by rw [h.2, hc.2]; rfl⟩
    refine hhead.bind fun _ cx₁ _ ⟨first, hfirst, hfacts⟩ => ?_
    refine ih.framed.mono ?_ ?_
    · rintro _ cx₂ ⟨he, ls, hls, hfacts'⟩
      refine ⟨first :: ls, .cons (hfirst.mono he) hls, ?_⟩
      rw [hfacts', hfacts, List.append_assoc]
      rfl
    · rintro e cx₂ ⟨p, hp, hmissing⟩
      exact ⟨p, List.mem_cons_of_mem _ hp, hmissing⟩

/-- Each parameter is told under a label of its own, in order. -/
theorem parameterFacts (parameters : List Parameter) (types : List Label) :
    UnitStatesAbout m scope l (parameterFacts parameters types l) cx
      (fun _ cx' => ∃ owns, owns.length = (parameters.zip types).length ∧
        cx'.factsAbout l = cx.factsAbout l ++ parameterTuples parameters types owns l) bad := by
  have hall : ∀ (items : List ((Parameter × Label) × Nat)) (cx : Context),
      UnitStatesAbout m scope l (Prog.each items fun item => do
        let own ← Prog.freshLabel
        Prog.fact "params"
          [.label own, .text item.1.1.name, .label item.1.2, .index item.2, .label l]) cx
        (fun _ cx' => ∃ owns : List Label, owns.length = items.length ∧
          cx'.factsAbout l = cx.factsAbout l ++ (items.zip owns).map fun row => ⟨"params",
            [.label row.2, .text row.1.1.1.name, .label row.1.1.2, .index row.1.2, .label l]⟩)
        bad := by
    intro items
    induction items with
    | nil => exact fun cx => .pure ⟨[], rfl, (List.append_nil _).symm⟩
    | cons item items ih =>
      intro cx
      refine StatesAbout.parameter rfl fun own cx₁ _ hfacts => ?_
      refine (ih cx₁).mono ?_ fun _ _ hb => hb
      rintro _ cx₂ ⟨owns, hlength, hfacts'⟩
      refine ⟨own :: owns, congrArg (· + 1) hlength, ?_⟩
      rw [hfacts', hfacts, List.append_assoc]
      rfl
  refine (hall _ cx).mono ?_ fun _ _ hb => hb
  rintro _ cx' ⟨owns, hlength, hfacts⟩
  exact ⟨owns, hlength.trans List.length_zipIdx, hfacts⟩

/-- A unit that defines a symbol tells its places. -/
theorem definedPlaces {relation : String} {id : SymbolId} (rest : Symbol → Prog Unit)
    (hrest : ∀ s, (rest s).Factless) (hr : relation ≠ "type_arguments") (hp : relation ≠ "params") :
    UnitStatesAbout m scope l (do
      if ← Prog.ofExcept (scope.defines m id) then
        let s ← Prog.ofExcept (m.symbol id)
        TrapFacts.locationFacts relation l s.locations
        rest s) cx
      (fun _ cx' => ∃ ls, m.PlacesAt cx' (scope.places m id) ls ∧
        cx'.factsAbout l = cx.factsAbout l ++ ls.map (.relating relation l))
      fun _ cx' => m.Sited → ∃ ls, m.PlacesAt cx' (scope.places m id) ls ∧
        cx'.factsAbout l = cx.factsAbout l ++ ls.map (.relating relation l) := by
  have hnothing : scope.defines m id ≠ .ok true →
      ∃ ls, m.PlacesAt cx (scope.places m id) ls ∧
        cx.factsAbout l = cx.factsAbout l ++ ls.map (.relating relation l) := by
    intro hd
    rw [Scope.places_eq_nil hd]
    exact ⟨[], .nil, (List.append_nil _).symm⟩
  refine StatesAbout.read (fun e he _ => hnothing (by simp [he])) fun defined hdefined => ?_
  split
  · next hd =>
    rw [hd] at hdefined
    refine StatesAbout.read (fun e he => ?_) fun s hs => ?_
    · simp [Scope.defines, he] at hdefined
    · rw [Scope.places_eq hdefined hs]
      have hplaces : UnitStatesAbout m scope l (TrapFacts.locationFacts relation l s.locations) cx
          (fun _ cx' => ∃ ls, m.PlacesAt cx' s.locations ls ∧
            cx'.factsAbout l = cx.factsAbout l ++ ls.map (.relating relation l))
          fun _ cx' => m.Sited → ∃ ls, m.PlacesAt cx' s.locations ls ∧
            cx'.factsAbout l = cx.factsAbout l ++ ls.map (.relating relation l) := by
        refine (locationFacts s.locations hr hp).mono (fun _ _ h => h) ?_
        rintro e cx' ⟨place, hplace, hmissing⟩ hsited
        rw [hsited.missingTree? hs hplace] at hmissing
        cases hmissing
      refine hplaces.bind fun _ cx₁ _ ⟨ls, hls, hfacts⟩ => ?_
      refine (StatesAbout.factless (World.ofModel_statesOwn m scope) (hrest s)).mono ?_ ?_
      · rintro _ cx₂ ⟨he, hfacts'⟩
        exact ⟨ls, hls.mono he, hfacts'.trans hfacts⟩
      · rintro _ cx₂ ⟨he, hfacts'⟩ _
        exact ⟨ls, hls.mono he, hfacts'.trans hfacts⟩
  · next hd => exact .pure (hnothing (by simpa [hdefined] using hd))

/-- How far the description of a type has come, before its kind and its places tell. -/
theorem namedTypeFacts (t : NamedType) (hnone : cx.factsAbout l = []) :
    UnitStatesAbout m scope l (namedTypeFacts m scope t l) cx
      (fun _ cx' => m.Shows scope (.namedType t) l cx')
      fun _ cx' => m.Shows scope (.namedType t) l cx' := by
  refine StatesAbout.bind (fact _ (by decide) (by decide)) fun _ cx₁ _ h₁ => ?_
  refine (relatedFact t.space (by decide) (by decide)).bind fun _ cx₂ _ h₂ => ?_
  refine (relatedFact t.container (by decide) (by decide)).bind fun _ cx₃ _ h₃ => ?_
  have hopening : cx₃.factsAbout l =
      ⟨"types", [.label l, .index (t.kind.typeNumber?.getD 0), .text t.name]⟩ ::
        (relatedTuples "parent_namespace" l t.space ++
          relatedTuples "nested_types" l t.container) := by
    rw [h₃, h₂, h₁, hnone]
    rfl
  split
  · next hk =>
    refine StatesAbout.missingType fun hfacts => .pure fun _ _ => ⟨⟨[], ?_, ?_⟩, fun _ => by simp⟩
    · rw [if_pos (.inl hk)]
      exact .nil
    · rw [hfacts, hopening, if_pos hk]
      simp [relatedTuples]
  · next hk =>
    split
    · next definition hdefinition =>
      refine StatesAbout.bind (fact _ (by decide) (by decide)) fun _ cx₄ _ h₄ => ?_
      have hknown : ∀ cx', cx'.factsAbout l = cx₄.factsAbout l →
          m.Shows scope (.namedType t) l cx' := by
        intro cx' hfacts _ _
        refine ⟨⟨[], ?_, ?_⟩, fun he => absurd he hk⟩
        · rw [if_pos (.inr (by rw [hdefinition]; rfl))]
          exact .nil
        · rw [hfacts, h₄, hopening, if_neg hk, hdefinition]
          simp [relatedTuples, Tuple.relating]
      exact (StatesAbout.factless (World.ofModel_statesOwn m scope)
        (typeArgumentFacts_factless _ _)).mono
        (fun _ cx' h => hknown cx' h.2) fun _ cx' h => hknown cx' h.2
    · next hdefinition =>
      have hknown : ∀ cx' places, m.PlacesAt cx' (scope.places m t.symbol) places →
          cx'.factsAbout l = cx₃.factsAbout l ++ places.map (.relating "type_location" l) →
          m.Shows scope (.namedType t) l cx' := by
        intro cx' places hplaces hfacts _ _
        refine ⟨⟨places, ?_, ?_⟩, fun he => absurd he hk⟩
        · rwa [if_neg (by simp [hk, hdefinition])]
        · rw [hfacts, hopening, if_neg hk, hdefinition]
          simp [relatedTuples]
      refine (definedPlaces (fun s => Prog.each s.members fun member =>
        .attempt none (some member) (extractMember m member) (.pure ()))
        (fun s => membersFacts_factless s.members) (by decide) (by decide)).mono ?_ ?_
      · rintro _ cx' ⟨ls, hls, hfacts⟩
        exact hknown cx' ls hls hfacts
      · rintro _ cx' h hsited hfits
        obtain ⟨ls, hls, hfacts⟩ := h hsited
        exact hknown cx' ls hls hfacts hsited hfits

theorem methodLocationFacts {f : Method} {s : Symbol} (hs : m.symbol f.symbol = .ok s) :
    UnitStatesAbout m scope l (methodLocationFacts m scope f s.locations l) cx
      (fun _ cx' => ∃ ls, m.PlacesAt cx' (scope.places m f.symbol) ls ∧
        cx'.factsAbout l = cx.factsAbout l ++ ls.map (.relating "method_location" l))
      fun _ _ => True := by
  refine StatesAbout.read (fun _ _ => trivial) fun defined hdefined => ?_
  split
  · next hd =>
    rw [Scope.places_eq (hd ▸ hdefined) hs]
    exact (locationFacts s.locations (by decide) (by decide)).mono (fun _ _ h => h)
      fun _ _ _ => trivial
  · next hd =>
    have hnot : scope.defines m f.symbol ≠ .ok true := by simpa [hdefined] using hd
    rw [Scope.places_eq_nil hnot]
    exact .pure ⟨[], .nil, (List.append_nil _).symm⟩

/-- A method is told in full unless its description fails. -/
theorem methodFacts (f : Method) (hnone : cx.factsAbout l = []) :
    UnitStatesAbout m scope l (methodFacts m scope f l) cx
      (fun _ cx' => m.MethodFacts scope f l cx')
      fun _ _ => True := by
  refine StatesAbout.bind (fact _ (by decide) (by decide)) fun _ cx₁ _ h₁ => ?_
  refine (relatedFact f.returnType (by decide) (by decide)).bind fun _ cx₂ _ h₂ => ?_
  refine StatesAbout.read (fun _ _ => trivial) fun s hs => ?_
  refine (parameterFacts s.parameters f.parameters).bind fun _ cx₃ _ ⟨owns, howns, h₃⟩ => ?_
  have hmute : UnitStatesAbout m scope l (typeArgumentFacts m f.declaringSymbol f.declaring) cx₃
      (fun _ cx₄ => cx₄.factsAbout l = cx₃.factsAbout l) fun _ _ => True :=
    (StatesAbout.factless (World.ofModel_statesOwn m scope) (typeArgumentFacts_factless _ _)).mono
      (fun _ _ h => h.2) fun _ _ _ => trivial
  refine hmute.bind fun _ cx₄ _ h₄ => ?_
  have hopening : cx₄.factsAbout l =
      ⟨"methods", [.label l, .text f.name, .label f.declaring]⟩ ::
        (relatedTuples "returns" l f.returnType ++
          parameterTuples s.parameters f.parameters owns l) := by
    rw [h₄, h₃, h₂, h₁, hnone]
    rfl
  split
  · next hk =>
    cases ho : s.associatedSymbol with
    | none =>
      refine StatesAbout.modelError (fun _ => trivial) (.pure ⟨s, owns, [], hs, howns, ?_, ?_⟩)
      · rw [if_pos ⟨hk, ho⟩]
        exact .nil
      · simp [hopening, Model.accessorTuples, hk, ho]
    | some owner =>
      refine StatesAbout.bind (fact _ (by decide) (by decide)) fun _ cx₅ _ h₅ => ?_
      refine (methodLocationFacts hs).mono ?_ fun _ _ hb => hb
      rintro _ cx' ⟨ls, hls, hfacts⟩
      refine ⟨s, owns, ls, hs, howns, ?_, ?_⟩
      · rwa [if_neg (by simp [ho])]
      · simp [hfacts, h₅, hopening, Model.accessorTuples, hk, ho]
  · next hk =>
    refine (methodLocationFacts hs).mono ?_ fun _ _ hb => hb
    rintro _ cx' ⟨ls, hls, hfacts⟩
    refine ⟨s, owns, ls, hs, howns, ?_, ?_⟩
    · rwa [if_neg (by simp [hk])]
    · simp [hfacts, hopening, Model.accessorTuples, hk]

theorem fileFacts (path : String) (hnone : cx.factsAbout l = []) :
    UnitStatesAbout m scope l (fileFacts m scope path l) cx
      (fun _ cx' => m.Shows scope (.file path) l cx') bad := by
  refine StatesAbout.bind (fact _ (by decide) (by decide)) fun _ cx₁ _ h₁ => ?_
  rw [hnone, List.nil_append] at h₁
  split
  · next hown =>
    cases hfind : m.trees.find? (·.path == path) with
    | none => exact .pure (by simp [Model.Shows, h₁, hown, hfind])
    | some tree =>
      refine (fact _ (by decide) (by decide)).mono (fun _ cx₂ h₂ => ?_) fun _ _ hb => hb
      simp [Model.Shows, h₂, h₁, hown, hfind]
  · next hown => exact .pure (by simp [Model.Shows, h₁, hown])

theorem assemblyFacts (name path : String) (file : Label) (hnone : cx.factsAbout l = []) :
    UnitStatesAbout m scope l (assemblyFacts m scope name file l) cx
      (fun _ cx' => m.Shows scope (.assembly name path file) l cx')
      fun _ cx' => m.Shows scope (.assembly name path file) l cx' := by
  refine StatesAbout.bind (fact _ (by decide) (by decide)) fun _ cx₁ _ h₁ => ?_
  rw [hnone, List.nil_append] at h₁
  split
  · exact (StatesAbout.factless (World.ofModel_statesOwn m scope)
      (assemblyTypeFacts_factless _)).mono
      (fun _ _ h => h.2.trans h₁) fun _ _ h => h.2.trans h₁
  · exact .pure h₁

theorem spaceFacts (symbol : SymbolId) (name : String) (parent : Option Label)
    (hnone : cx.factsAbout l = []) :
    UnitStatesAbout m scope l (spaceFacts name parent l) cx
      (fun _ cx' => m.Shows scope (.space symbol name parent) l cx') bad := by
  refine StatesAbout.bind (fact _ (by decide) (by decide)) fun _ cx₁ _ h₁ => ?_
  rw [hnone, List.nil_append] at h₁
  refine (relatedFact parent (by decide) (by decide)).mono (fun _ cx₂ h₂ => ?_) fun _ _ hb => hb
  rw [Model.Shows, h₂, h₁]
  rfl

theorem pointerFacts (symbol : SymbolId) (pointee : Label) (hnone : cx.factsAbout l = []) :
    UnitStatesAbout m scope l (pointerFacts m symbol pointee l) cx
      (fun _ cx' => m.Shows scope (.pointer symbol pointee) l cx') bad := by
  refine StatesAbout.bind (fact _ (by decide) (by decide)) fun _ cx₁ _ h₁ => ?_
  rw [hnone, List.nil_append] at h₁
  refine (fact _ (by decide) (by decide)).mono (fun _ cx₂ h₂ => ?_) fun _ _ hb => hb
  rw [Model.Shows, h₂, h₁]
  rfl

/-- Descriptions show their entities. Only that of a method may fail to. -/
theorem facts (en : Entity) (hnone : cx.factsAbout l = []) :
    UnitStatesAbout m scope l (facts m scope en l) cx (fun _ cx' => m.Shows scope en l cx')
      fun _ cx' => (∃ f, en = .method f) ∨ m.Shows scope en l cx' := by
  cases en with
  | file path => exact fileFacts path hnone
  | location file span =>
    refine (fact _ (by decide) (by decide)).mono (fun _ cx₁ h₁ => ?_) fun _ _ hb => hb
    rwa [hnone, List.nil_append] at h₁
  | assembly name path file =>
    exact (assemblyFacts name path file hnone).mono (fun _ _ h => h) fun _ _ => .inr
  | space symbol name parent => exact spaceFacts symbol name parent hnone
  | namedType t => exact (namedTypeFacts t hnone).mono (fun _ _ h => h) fun _ _ => .inr
  | pointer symbol pointee => exact pointerFacts symbol pointee hnone
  | method f => exact (methodFacts f hnone).mono (fun _ _ => .inr) fun _ _ _ => .inl ⟨f, rfl⟩
  | custom => exact .pure trivial

end UnitStatesAbout

/-- An entity whose tree is missing is not described, and that is reported. -/
theorem Model.shows_unplaced {e : Failure} (hb : en.behavior = .pushesScope)
    (hf : (Recipe.location en.reportingLocation?).Fails m e) :
    m.Shows scope en l (cx.send (m.failureMessage e none en.symbol?) (some (.failure l))) := by
  cases en with
  | method f => exact .inl (Context.erred_send (m.severity_failureMessage _ _ _))
  | namedType t =>
    intro hsited hfits
    have hlocation : t.location = m.firstDeclaration? t.symbol := hfits
    change (Recipe.location t.location).Fails m e at hf
    cases hplace : t.location with
    | none =>
      rw [hplace] at hf
      exact hf.elim
    | some place =>
      rw [hplace] at hf hlocation
      unfold firstDeclaration? at hlocation
      split at hlocation
      · next s hs =>
        have hmissing := hsited.missingTree? hs (List.mem_of_mem_head? hlocation.symm)
        rw [hf.1] at hmissing
        cases hmissing
      · cases hlocation
  | custom => trivial
  | _ => cases hb

/-- The descriptions of a model meet their specification. -/
theorem World.ofModel_meetsSpec (m : Model) (scope : Scope) :
    (World.ofModel m scope).MeetsSpec (facts m scope) (m.descriptionSpec scope) where
  toStatesOwn := World.ofModel_statesOwn m scope
  factory hdeeper hs := Model.factory_comes hdeeper hs _
  shows := by
    intro deeper drain en l cx hdeeper hs hl hnone hstops
    obtain ⟨-, hgood, hbad⟩ := UnitStatesAbout.facts en hnone deeper drain hdeeper hs hl
    generalize (World.ofModel m scope).eval deeper drain (facts m scope en l) cx = r at *
    obtain ⟨o, cx₁⟩ := r
    cases o with
    | done => exact hgood _ rfl
    | exhausted => cases hstops
    | failed e =>
      cases he : e.isFatal with
      | true => simp [recover, he, Outcome.stops] at hstops
      | false =>
        simp only [recover, he]
        rcases hbad e rfl he with ⟨f, rfl⟩ | hshows
        · exact .inl (Context.erred_send (m.severity_failureMessage _ _ _))
        · refine Model.Shows.lasting hshows (Frame.send _ _ _).events ?_
          exact Context.factsAbout_quiet (Context.events_send _ _ _) rfl l
  unplaced hb hf _ := Model.shows_unplaced hb (hf trivial)

end TrapFacts
