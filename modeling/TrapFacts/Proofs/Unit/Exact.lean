import TrapFacts.Proofs.Engine.Shown
import TrapFacts.Proofs.Unit.Backlog
import TrapFacts.Proofs.Unit.Grounded
import TrapFacts.Proofs.Unit.Independent
import TrapFacts.Proofs.Unit.Portable
import TrapFacts.Proofs.Unit.DescriptionSpec

/-! What the trap of a unit says of a type or a method, each row once and in order. -/

namespace TrapFacts

variable {m : Model} {scope : Scope} {x : Extractor} {unit : TrapUnit} {budget : Nat}
  {cx : Context} {en : Entity} {l own : Label} {id : SymbolId} {s : Symbol}

/-- Whether a record mentions a label: introduces it, or has it in its key or among its
arguments. -/
def Record.Mentions (r : Record) (l : Label) : Prop :=
  r.introduced? = some l ∨ l ∈ r.keyLabels ∨ l ∈ r.argLabels

namespace Context

/-- The facts with a label as their first argument, but for those about the arguments of a type. -/
def headed (cx : Context) (l : Label) : List Tuple :=
  (cx.trap.filterMap Record.fact?).filter fun t =>
    t.args.head? = some (.label l) ∧ t.relation ≠ "type_arguments"

def parametersOf (cx : Context) (l : Label) : List Tuple :=
  (cx.trap.filterMap Record.fact?).filter fun t =>
    t.relation = "params" ∧ t.args.getLast? = some (.label l)

theorem headed_eq (cx : Context) (l : Label) :
    cx.headed l = (cx.factsAbout l).filter fun t => t.args.head? = some (.label l) := by
  rw [headed, factsAbout, List.filter_filter]
  refine List.filter_congr fun t _ => ?_
  rw [← Bool.decide_and, decide_eq_decide]
  refine ⟨fun h => ⟨h.1, h.2, .inl h.1⟩, fun h => ⟨h.1, h.2.1⟩⟩

theorem parametersOf_eq (cx : Context) (l : Label) :
    cx.parametersOf l = (cx.factsAbout l).filter fun t => t.relation = "params" ∧
      t.args.getLast? = some (.label l) := by
  rw [parametersOf, factsAbout, List.filter_filter]
  refine List.filter_congr fun t _ => ?_
  rw [← Bool.decide_and, decide_eq_decide]
  refine ⟨fun h => ⟨h, by simp [h.1], .inr h⟩, fun h => h.1⟩

end Context

namespace Model

/-- The rows of a named type: its kind and name, the namespace of one that is not nested, the
container of one that is, and then, if it was resolved, its definition if it was constructed, else
the places where it is declared, if the unit defines it. -/
def TypeExact (m : Model) (scope : Scope) (cx : Context) (id : SymbolId) (s : Symbol) (l : Label) :
    Prop :=
  ∃ number space container definition places,
    s.kind.typeNumber? = some number ∧
    Option.Rel (m.SpaceAt cx)
      (if s.containingType.isNone then s.containingNamespace else none) space ∧
    Option.Rel (m.TypeAt cx) s.containingType container ∧
    Option.Rel (m.TypeAt cx) (if s.kind = .error then none else s.constructedFrom? id) definition ∧
    List.Forall₂ (fun place => m.Located cx.trap (some place))
      (if s.kind = .error ∨ (s.constructedFrom? id).isSome then [] else scope.places m id) places ∧
    cx.headed l = ⟨"types", [.label l, .index number, .text s.name]⟩ ::
      (relatedTuples "parent_namespace" l space ++ relatedTuples "nested_types" l container ++
        relatedTuples "constructed_from" l definition ++
        places.map (.relating "type_location" l))

/-- The rows of a method: its name and owner, its return type if it has one, its parameters each
under a label that nothing else mentions, what it belongs to if it is an accessor, and the given
places. -/
def MethodExact (m : Model) (cx : Context) (s : Symbol) (l : Label) (histories : List Declaration) :
    Prop :=
  ∃ owner declaring returned types owns places,
    s.containingType = some owner ∧ m.TypeAt cx owner declaring ∧
    Option.Rel (m.TypeAt cx) s.returnType returned ∧
    List.Forall₂ (m.TypeAt cx) (s.parameters.map (·.type)) types ∧
    owns.length = s.parameters.length ∧
    cx.parametersOf l = parameterTuples s.parameters types owns l ∧
    (∀ row ∈ cx.parametersOf l, ∃ own ∈ owns, row.args.head? = some (.label own) ∧
      .fresh own ∈ cx.trap ∧ ∀ r ∈ cx.trap, r.Mentions own → r = .fresh own ∨ r = .tuple row) ∧
    List.Forall₂ (fun place => m.Located cx.trap (some place)) histories places ∧
    cx.headed l = ⟨"methods", [.label l, .text s.name, .label declaring]⟩ ::
      (relatedTuples "returns" l returned ++ m.accessorTuples s.kind s.associatedSymbol l ++
        places.map (.relating "method_location" l))

/-- The places of a method that its unit tells: those of an accessor that belongs to nothing are
left out. -/
def methodPlaces (m : Model) (scope : Scope) (id : SymbolId) (s : Symbol) : List Declaration :=
  if s.kind = .accessor ∧ s.associatedSymbol = none then [] else scope.places m id

/-- Each place of an entity has a location in the trap. -/
theorem PlacesAt.located {places : List Declaration} {ls : List Label}
    (h : m.PlacesAt cx places ls) (ho : Orderly cx) :
    List.Forall₂ (fun place => m.Located cx.trap (some place)) places ls :=
  h.imp fun _ _ hp => ho.located hp

end Model

theorem mem_parameterTuples {parameters : List Parameter} {types owns : List Label} {row : Tuple}
    (h : row ∈ parameterTuples parameters types owns l) : ∃ own ∈ owns, ∃ rest,
      row = ⟨"params", .label own :: rest⟩ ∧ row.args.getLast? = some (.label l) := by
  obtain ⟨⟨⟨⟨parameter, type⟩, index⟩, own⟩, hm, rfl⟩ := List.mem_map.1 h
  exact ⟨own, (List.of_mem_zip hm).2, _, rfl, rfl⟩

theorem head?_relating {relation : String} {others : List Label} {row : Tuple}
    (h : row ∈ others.map (.relating relation l)) (hr : relation ≠ "params") :
    row.args.head? = some (.label l) ∧ row.relation ≠ "params" := by
  obtain ⟨_, _, rfl⟩ := List.mem_map.1 h
  exact ⟨rfl, hr⟩

theorem head?_accessorTuples {kind : SymbolKind} {owner : Option SymbolId} {row : Tuple}
    (h : row ∈ m.accessorTuples kind owner l) :
    row.args.head? = some (.label l) ∧ row.relation ≠ "params" := by
  unfold Model.accessorTuples at h
  split at h
  · obtain ⟨_, _, rfl⟩ := List.mem_map.1 h
    exact ⟨rfl, show "accessors" ≠ "params" by decide⟩
  · cases h

/-- The label of a parameter is fresh, and its row is the only one that describes it. -/
theorem Histories.parameter {owed : List Due} {b : Bool} {rest : List Value}
    (h : Histories m b owed cx)
    (hr : .tuple ⟨"params", .label own :: rest⟩ ∈ cx.trap) :
    .fresh own ∈ cx.trap ∧ ∀ t, .tuple t ∈ cx.trap → t.subject? = some own →
      t = ⟨"params", .label own :: rest⟩ := by
  have hm := Context.mem_history_of_trap hr (show Tuple.subject? _ = some own from rfl)
  have hh := h.history own
  have hin : ∀ r, .wrote r ∈ cx.history own → r ∈ cx.trap := by
    intro r hr
    rw [Context.trap_eq]
    exact List.mem_filterMap.2 ⟨_, (List.mem_filter.1 hr).1, rfl⟩
  have hrow : ∀ t, .tuple t ∈ cx.trap → t.subject? = some own →
      .wrote (.tuple t) ∈ cx.history own := fun t ht hs => Context.mem_history_of_trap ht hs
  generalize cx.history own = es at hm hh hin hrow
  cases hh with
  | @fresh relation args _ =>
    obtain ⟨rfl, rfl⟩ : "params" = relation ∧ rest = args := by simpa [rowEvent] using hm
    refine ⟨hin _ (by simp), fun t ht hs => ?_⟩
    simpa [rowEvent] using hrow t ht hs
  | @described slot en relation args reports _ hrel =>
    have hparams : relation = "params" := by
      have hrow := hm
      simp only [beginning, rowEvent] at hrow
      aesop
    subst hparams
    cases en <;> simp [Entity.relation?] at hrel
  | unknown | begun | givenUp => simp [beginning] at hm

namespace ScopedUnit

variable {u : ScopedUnit}

/-- The context of a unit that was extracted. -/
structure Over (u : ScopedUnit) (cx : Context) : Prop where
  sound : Sound [] cx
  numbered : Numbered cx
  labelled : Labelled u.model u.scope cx
  founded : u.Founded cx
  grounded : u.Grounded cx
  histories : Histories u.model false [] cx
  shown : ∀ slot en l, .created slot ⟨l, en⟩ ∈ cx.events → u.model.Shows u.scope en l cx

namespace Over

theorem keyed (h : u.Over cx) (hi : cx.Introduced en l) : cx.Keyed l := by
  obtain ⟨slot, hc⟩ := hi
  refine ⟨en.key, ?_⟩
  rw [Context.trap_eq]
  exact List.mem_filterMap.2 ⟨_, (h.sound.orderly.created _ _ hc).2, rfl⟩

/-- A label without a key is not one with a key. -/
theorem not_keyed (h : u.Over cx) (hf : .fresh l ∈ cx.trap) : ¬ cx.Keyed l := by
  rintro ⟨key, hd⟩
  cases h.numbered.introduced_unique hf hd rfl rfl

/-- Nothing else mentions the label that a parameter's row is for. -/
theorem mentions_parameter (h : u.Over cx) {rest : List Value}
    (hr : .tuple ⟨"params", .label own :: rest⟩ ∈ cx.trap) :
    .fresh own ∈ cx.trap ∧ ∀ r ∈ cx.trap, r.Mentions own →
      r = .fresh own ∨ r = .tuple ⟨"params", .label own :: rest⟩ := by
  obtain ⟨hfresh, hrow⟩ := h.histories.parameter hr
  refine ⟨hfresh, fun r hm => ?_⟩
  rintro (hi | hk | ha)
  · exact .inl (h.numbered.introduced_unique hm hfresh hi rfl)
  · obtain ⟨before, after, hsplit⟩ := List.append_of_mem hm
    obtain ⟨key, hd⟩ := (h.labelled.mentions before r after hsplit).1 own hk
    refine absurd ⟨key, ?_⟩ (h.not_keyed hfresh)
    rw [hsplit]
    exact List.mem_append_left _ hd
  · cases r with
    | tuple t =>
      rcases h.grounded.cites t hm own ha with (hk | ⟨-, rest', hc⟩) | ⟨rest', rfl⟩
      · exact absurd hk (h.not_keyed hfresh)
      · exact absurd (hrow _ hc rfl) (by simp)
      · exact .inr (congrArg Record.tuple (hrow _ hm rfl))
    | _ => simp [Record.argLabels] at ha

/-- What is said of an entity is what begins with its label, and the rows of its parameters. -/
theorem split_factsAbout (h : u.Over cx) (hi : cx.Introduced en l)
    {rows others parameters : List Tuple} (hs : cx.factsAbout l = rows ++ parameters ++ others)
    (hrows : ∀ t ∈ rows ++ others, t.args.head? = some (.label l) ∧ t.relation ≠ "params")
    (hparameters : ∀ t ∈ parameters, t.args.getLast? = some (.label l) ∧
      ∃ own rest, t = ⟨"params", .label own :: rest⟩) :
    cx.headed l = rows ++ others ∧ cx.parametersOf l = parameters := by
  have hown : ∀ t ∈ parameters, t.args.head? ≠ some (.label l) := by
    intro t ht hhead
    obtain ⟨-, own, rest, rfl⟩ := hparameters t ht
    obtain rfl : own = l := by simpa using hhead
    have hmem : .tuple ⟨"params", .label own :: rest⟩ ∈ cx.trap := by
      refine (Context.mem_factsAbout (l := own)).1 ?_ |>.1
      rw [hs]
      simp [ht]
    exact h.not_keyed (h.mentions_parameter hmem).1 (h.keyed hi)
  have hleft := fun t ht => hrows t (List.mem_append_left others ht)
  have hright := fun t ht => hrows t (List.mem_append_right rows ht)
  constructor
  · rw [Context.headed_eq, hs, List.filter_append, List.filter_append,
      List.filter_eq_self.2 fun t ht => decide_eq_true (hleft t ht).1,
      List.filter_eq_self.2 fun t ht => decide_eq_true (hright t ht).1,
      List.filter_eq_nil_iff.2 fun t ht => by simpa using hown t ht, List.append_nil]
  · have hparams : ∀ t ∈ parameters, t.relation = "params" ∧
        t.args.getLast? = some (.label l) := by
      intro t ht
      obtain ⟨hlast, own, rest, rfl⟩ := hparameters t ht
      exact ⟨rfl, hlast⟩
    rw [Context.parametersOf_eq, hs, List.filter_append, List.filter_append,
      List.filter_eq_nil_iff.2 fun t ht => by simp [(hleft t ht).2],
      List.filter_eq_self.2 fun t ht => decide_eq_true (hparams t ht),
      List.filter_eq_nil_iff.2 fun t ht => by simp [(hright t ht).2], List.append_nil,
      List.nil_append]

/-- The rows of a type are exactly those of its symbol. -/
theorem namedType (h : u.Over cx) (hsited : u.model.Sited) (hl : cx.Labels id l)
    (hs : u.model.IsNamedType id s) : u.model.TypeExact u.scope cx id s l ∧
      (s.kind = .error → .missing (u.model.displayName id) ∈ cx.events) := by
  obtain ⟨type, en, hc⟩ := hl
  obtain ⟨rfl, t, rfl, hstands⟩ := h.founded.namedType_of_created hc hs
  obtain ⟨recipe, -, -, hy⟩ := h.founded.created _ _ _ hc
  obtain rfl := hstands.symbol
  obtain ⟨⟨places, hplaces, hfacts⟩, hmissing⟩ := h.shown _ _ _ hc hsited hy.fits
  refine ⟨?_, fun hk => hmissing (hstands.kind.trans hk)⟩
  obtain ⟨number, hnumber⟩ : ∃ number, s.kind.typeNumber? = some number :=
    Option.isSome_iff_exists.1 hs.2.1
  have hcontainer := hstands.container.isSome_eq
  have hdefinition := hstands.definition.isSome_eq
  have hspace := hstands.space
  rw [hstands.kind] at hplaces hfacts
  refine ⟨number, t.space, t.container, if s.kind = .error then none else t.definition, places,
    hnumber, ?_, hstands.container, ?_, ?_, ?_⟩
  · rwa [← Option.not_isSome, ← hcontainer, Option.not_isSome] at hspace
  · split
    · exact .none
    · exact hstands.definition
  · rw [hdefinition]
    exact hplaces.located h.sound.orderly
  · rw [hnumber, hstands.name] at hfacts
    have hheaded : ∀ row ∈ cx.factsAbout l, row.args.head? = some (.label l) := by
      rw [hfacts]
      intro row hrow
      rcases List.mem_cons.1 hrow with rfl | hrow
      · rfl
      · simp only [List.mem_append, relatedTuples] at hrow
        rcases hrow with ((hrow | hrow) | hrow) | hrow <;>
          exact (head?_relating hrow (by decide)).1
    rw [Context.headed_eq, List.filter_eq_self.2 fun row hrow => decide_eq_true (hheaded row hrow),
      hfacts]
    rfl

/-- The rows of a method are exactly those of its symbol, if nothing went wrong. -/
theorem method (h : u.Over cx) (hclean : ¬ cx.Erred) (hl : cx.Labels id l)
    (hs : u.model.IsMethod id s) :
    u.model.MethodExact cx s l (u.model.methodPlaces u.scope id s) := by
  obtain ⟨type, en, hc⟩ := hl
  obtain ⟨rfl, f, rfl, hstands⟩ := h.founded.method_of_created hc hs
  obtain rfl := hstands.symbol
  obtain ⟨s', owns, places, hs', howns, hplaces, hfacts⟩ :=
    (h.shown _ _ _ hc).resolve_left hclean
  obtain rfl : s = s' := Except.ok.inj (hs.1.symm.trans hs')
  have htypes : s.parameters.length = f.parameters.length := by
    simpa using hstands.parameters.length_eq
  rw [hstands.kind] at hplaces hfacts
  rw [hstands.name] at hfacts
  have hsplit : cx.factsAbout l = (⟨"methods", [.label l, .text s.name, .label f.declaring]⟩ ::
      relatedTuples "returns" l f.returnType) ++
        parameterTuples s.parameters f.parameters owns l ++
        (u.model.accessorTuples s.kind s.associatedSymbol l ++
          places.map (.relating "method_location" l)) := by
    rw [hfacts]
    simp only [List.cons_append, List.append_assoc]
  have hrows : ∀ row ∈ (⟨"methods", [.label l, .text s.name, .label f.declaring]⟩ ::
      relatedTuples "returns" l f.returnType) ++
        (u.model.accessorTuples s.kind s.associatedSymbol l ++
          places.map (.relating "method_location" l)),
      row.args.head? = some (.label l) ∧ row.relation ≠ "params" := by
    intro row hrow
    rw [List.cons_append] at hrow
    rcases List.mem_cons.1 hrow with rfl | hrow
    · exact ⟨rfl, show "methods" ≠ "params" by decide⟩
    · simp only [List.mem_append] at hrow
      rcases hrow with hrow | hrow | hrow
      · exact head?_relating hrow (by decide)
      · exact head?_accessorTuples hrow
      · exact head?_relating hrow (by decide)
  obtain ⟨hheaded, hparameters⟩ := h.split_factsAbout ⟨_, hc⟩ hsplit hrows fun row hrow => by
    obtain ⟨own, -, rest, rfl, hlast⟩ := mem_parameterTuples hrow
    exact ⟨hlast, own, rest, rfl⟩
  refine ⟨f.declaringSymbol, f.declaring, f.returnType, f.parameters, owns, places,
    hstands.declaringSymbol, hstands.declaring, hstands.returnType, hstands.parameters, ?_,
    hparameters, ?_, hplaces.located h.sound.orderly, ?_⟩
  · rw [howns, List.length_zip, htypes, Nat.min_self]
  · intro row hrow
    rw [hparameters] at hrow
    obtain ⟨own, hown, rest, rfl, -⟩ := mem_parameterTuples hrow
    have hmem : .tuple ⟨"params", .label own :: rest⟩ ∈ cx.trap := by
      refine ((Context.mem_factsAbout (l := l)).1 ?_).1
      rw [hfacts]
      simp [hrow]
    exact ⟨own, hown, rfl, h.mentions_parameter hmem⟩
  · rw [hheaded]
    simp only [List.cons_append, List.append_assoc]

end Over

end ScopedUnit

namespace TrapUnit

/-- A unit that was extracted came to the end of its program. -/
theorem finish_ran (hscope : unit.scope x m = .ok scope)
    (hend : unit.finish m scope x budget = (.extracted, cx)) :
    unit.runIn m scope x budget = ⟨.done (), cx⟩ := by
  rcases runIn_of_extracted hend with hran | ⟨e, before, hran, he, -⟩
  · exact hran
  · have hfailure := (runIn_goes unit m scope x budget).failure e (by rw [hran]) he
    exact absurd (exists_of_scope hscope) hfailure

/-- At the end of a unit that was extracted, all descriptions are over. -/
theorem finish_over (hscope : unit.scope x m = .ok scope)
    (hend : unit.finish m scope x budget = (.extracted, cx)) :
    ScopedUnit.Over ⟨m, scope, unit, fun _ => True⟩ cx := by
  have hran := finish_ran hscope hend
  have hknown := runIn_histories unit m scope x budget
  have hqueue := runIn_queue unit m scope x budget (by rw [hran]; rfl)
  have htrail := (ScopedUnit.runIn_goes (u := ⟨m, scope, unit, fun _ => True⟩)
    (closed_univ m scope unit) x budget).trail
  have hshown : Shown (facts m scope) (m.descriptionSpec scope)
      (unit.runIn m scope x budget).context :=
    World.run_shown (World.ofModel_meetsSpec m scope) unit.root_factless x budget
      (show (unit.runIn m scope x budget).outcome.stops = false by rw [hran]; rfl)
  have hlabelled := finish_labelled unit m scope x budget
  have hfounded := finish_founded unit m scope x budget
  have hsound := finish_sound unit m scope x budget
  have hnumbered := finish_numbered unit m scope x budget
  rw [hend] at hlabelled hfounded hsound hnumbered
  rw [show (ScopedUnit.mk m scope unit fun _ => True).unit.runIn m scope x budget = _ from hran]
    at htrail
  rw [hran] at hknown hqueue hshown
  refine ⟨hsound, hnumbered, hlabelled, hfounded, htrail.grounded (ScopedUnit.grounded_fresh _ x)
    (labelled_fresh m scope x) (by simp), hknown, fun slot en l hc => ?_⟩
  rcases (hshown.made slot en l hc).2 with hshows | ⟨hdue, -⟩
  · exact hshows
  · simp [Context.dues, show cx.queue = [] from hqueue] at hdue

/-- In a unit that was extracted the rows of every named type are exact, and the types reported
missing are those that were not resolved. -/
theorem finish_types_exact (hscope : unit.scope x m = .ok scope) (hsited : m.Sited)
    (hend : unit.finish m scope x budget = (.extracted, cx)) :
    (∀ id s l, cx.Labels id l → m.IsNamedType id s → m.TypeExact scope cx id s l ∧
      (s.kind = .error → m.displayName id ∈ cx.extractor.missingTypes)) ∧
    ∀ name ∈ cx.extractor.missingTypes, name ∈ x.missingTypes ∨ ∃ id s l, cx.Labels id l ∧
      m.IsNamedType id s ∧ s.kind = .error ∧ name = m.displayName id := by
  have hover := finish_over hscope hend
  have htallied := finish_tallied unit m scope x budget
  rw [hend] at htallied
  have hmissing (name : String) : name ∈ cx.extractor.missingTypes ↔
      name ∈ x.missingTypes ∨ .missing name ∈ cx.events := by
    rw [show cx.extractor = _ from htallied]
    exact Extractor.mem_missingTypes_tally _ _
  constructor
  · intro id s l hl hs
    obtain ⟨hexact, hevent⟩ := hover.namedType hsited hl hs
    exact ⟨hexact, fun hk => (hmissing _).2 (.inr (hevent hk))⟩
  · intro name hname
    refine ((hmissing name).1 hname).imp_right fun hevent => ?_
    obtain ⟨t, l, ⟨slot, hc⟩, hk, rfl⟩ := hover.grounded.missed name hevent
    obtain ⟨recipe, rfl, hw, hy⟩ := hover.founded.created _ _ _ hc
    obtain ⟨id, s, rfl, hs, hstands⟩ := hy.of_namedType
    obtain ⟨-, s', hnamed⟩ := hw
    obtain rfl : s = s' := Except.ok.inj (hs.symm.trans hnamed.1)
    exact ⟨id, s, l, ⟨_, _, hc⟩, hnamed, hstands.kind ▸ hk, by rw [hstands.symbol]⟩

/-- In a unit that was extracted without an error the rows of every method are exact. The places of
an accessor that belongs to nothing are missing, though, if the extractor puts up with it. -/
theorem finish_methods_exact (hscope : unit.scope x m = .ok scope)
    (hend : unit.finish m scope x budget = (.extracted, cx))
    (hclean : ∀ message ∈ cx.sent, message.severity ≠ .error) :
    ∀ id s l, cx.Labels id l → m.IsMethod id s →
      m.MethodExact cx s l (m.methodPlaces scope id s) := by
  intro id s l hl hs
  exact (finish_over hscope hend).method (finish_clean hend hclean).1 hl hs

section

-- Evaluation compares keys by their literals, not byte by byte.
attribute [local irreducible] String.decEq

/-- A class with a struct in it and a method that returns what was not resolved. -/
theorem finish_types_exact_nested :
    let m : Model := {
      trees := [{ path := "a.cs", members := [⟨0⟩] }]
      symbols := [
        { name := "N", kind := .space, members := [⟨1⟩] },
        { name := "C", kind := .classType, containingNamespace := some ⟨0⟩,
          locations := [⟨⟨0⟩, ⟨1, 1, 6, 2⟩⟩], members := [⟨2⟩, ⟨3⟩] },
        { name := "D", kind := .struct, containingType := some ⟨1⟩,
          locations := [⟨⟨0⟩, ⟨2, 3, 2, 9⟩⟩] },
        { name := "f", kind := .method, containingType := some ⟨1⟩, returnType := some ⟨4⟩,
          locations := [⟨⟨0⟩, ⟨3, 3, 4, 4⟩⟩] },
        { name := "E", kind := .error }] }
    let scope : Scope := .source ⟨0⟩ "a.cs"
    let cx := ((source ⟨0⟩).finish m scope {} m.drainBudget).2
    (source ⟨0⟩).scope {} m = .ok scope ∧ m.Sited ∧
      (source ⟨0⟩).finish m scope {} m.drainBudget = (.extracted, cx) ∧
      (∀ name ∈ cx.extractor.missingTypes, name ∈ ([] : List String) ∨ ∃ id s l,
        cx.Labels id l ∧ m.IsNamedType id s ∧ s.kind = .error ∧ name = m.displayName id) ∧
      cx.Labels ⟨2⟩ ⟨5⟩ ∧ ∃ s, m.symbol ⟨2⟩ = .ok s ∧ m.TypeExact scope cx ⟨2⟩ s ⟨5⟩ := by
  intro m scope cx
  have hscope : (source ⟨0⟩).scope {} m = .ok scope := rfl
  have hsited : m.Sited := by simp [Model.Sited, m, Model.tree]
  have hstatus : ((source ⟨0⟩).finish m scope {} m.drainBudget).1 = .extracted := by cbv
  have hend : (source ⟨0⟩).finish m scope {} m.drainBudget = (.extracted, cx) :=
    Prod.ext hstatus rfl
  have hlabel : ((source ⟨0⟩).finish m scope {} m.drainBudget).2.events.any
      (Event.labels ⟨2⟩ ⟨5⟩) = true := by cbv
  have hl : cx.Labels ⟨2⟩ ⟨5⟩ := Context.labels_of_any hlabel
  obtain ⟨htypes, hmissing⟩ := finish_types_exact hscope hsited hend
  exact ⟨hscope, hsited, hend, hmissing, hl, _, rfl,
    (htypes ⟨2⟩ _ ⟨5⟩ hl ⟨rfl, rfl, by decide⟩).1⟩

/-- A method that takes a parameter. -/
theorem finish_methods_exact_parameter :
    let m : Model := {
      trees := [{ path := "a.cs", members := [⟨0⟩] }]
      symbols := [
        { name := "C", kind := .classType, locations := [⟨⟨0⟩, ⟨1, 1, 4, 2⟩⟩], members := [⟨1⟩] },
        { name := "f", kind := .method, containingType := some ⟨0⟩, returnType := some ⟨0⟩,
          parameters := [⟨"p", ⟨0⟩⟩], locations := [⟨⟨0⟩, ⟨2, 3, 3, 4⟩⟩] }] }
    let scope : Scope := .source ⟨0⟩ "a.cs"
    let cx := ((source ⟨0⟩).finish m scope {} m.drainBudget).2
    (source ⟨0⟩).scope {} m = .ok scope ∧
      (source ⟨0⟩).finish m scope {} m.drainBudget = (.extracted, cx) ∧ cx.sent = [] ∧
      cx.Labels ⟨1⟩ ⟨4⟩ ∧ ∃ s, m.symbol ⟨1⟩ = .ok s ∧
        m.MethodExact cx s ⟨4⟩ (m.methodPlaces scope ⟨1⟩ s) := by
  intro m scope cx
  have hscope : (source ⟨0⟩).scope {} m = .ok scope := rfl
  have hstatus : ((source ⟨0⟩).finish m scope {} m.drainBudget).1 = .extracted := by cbv
  have hend : (source ⟨0⟩).finish m scope {} m.drainBudget = (.extracted, cx) :=
    Prod.ext hstatus rfl
  have hsent : ((source ⟨0⟩).finish m scope {} m.drainBudget).2.sent = [] := by cbv
  have hlabel : ((source ⟨0⟩).finish m scope {} m.drainBudget).2.events.any
      (Event.labels ⟨1⟩ ⟨4⟩) = true := by cbv
  have hl : cx.Labels ⟨1⟩ ⟨4⟩ := Context.labels_of_any hlabel
  have hexact := finish_methods_exact hscope hend (by simp [cx, hsent]) ⟨1⟩ _ ⟨4⟩ hl ⟨rfl, rfl⟩
  exact ⟨hscope, hend, hsent, hl, _, rfl, hexact⟩

/-- An accessor that belongs to nothing loses the place where it is declared, and nothing is
reported. -/
theorem finish_methods_inexact :
    let m : Model := {
      trees := [{ path := "a.cs", members := [⟨0⟩] }]
      symbols := [
        { name := "C", kind := .classType, locations := [⟨⟨0⟩, ⟨1, 1, 4, 2⟩⟩], members := [⟨1⟩] },
        { name := "get_P", kind := .accessor, containingType := some ⟨0⟩,
          locations := [⟨⟨0⟩, ⟨2, 3, 2, 9⟩⟩] }] }
    let scope : Scope := .source ⟨0⟩ "a.cs"
    let x : Extractor := { config := { standalone := true } }
    let cx := ((source ⟨0⟩).finish m scope x m.drainBudget).2
    (source ⟨0⟩).scope x m = .ok scope ∧ m.Sited ∧ (∀ a, ¬ Relation.TransGen m.Holds a a) ∧
      (source ⟨0⟩).finish m scope x m.drainBudget = (.extracted, cx) ∧ cx.sent = [] ∧
      cx.Labels ⟨1⟩ ⟨4⟩ ∧ ∃ s, m.IsMethod ⟨1⟩ s ∧ scope.defines m ⟨1⟩ = .ok true ∧
        ¬ m.MethodExact cx s ⟨4⟩ s.locations := by
  intro m scope x cx
  have hholds : ∀ a b, ¬ m.Holds a b := by
    rintro ⟨a⟩ b ⟨s, hs, hk, hb⟩
    match a with
    | 0 | 1 => cases hs; cases hk
    | a + 2 => cases hs
  have hacyclic : ∀ a, ¬ Relation.TransGen m.Holds a a := by
    intro a h
    obtain ⟨b, hab, -⟩ := Relation.TransGen.head'_iff.1 h
    exact hholds a b hab
  have hstatus : ((source ⟨0⟩).finish m scope x m.drainBudget).1 = .extracted := by cbv
  have hend : (source ⟨0⟩).finish m scope x m.drainBudget = (.extracted, cx) :=
    Prod.ext hstatus rfl
  have hsent : ((source ⟨0⟩).finish m scope x m.drainBudget).2.sent = [] := by cbv
  have hlabel : ((source ⟨0⟩).finish m scope x m.drainBudget).2.events.any
      (Event.labels ⟨1⟩ ⟨4⟩) = true := by cbv
  have hheaded : ((source ⟨0⟩).finish m scope x m.drainBudget).2.headed ⟨4⟩ =
      [⟨"methods", [.label ⟨4⟩, .text "get_P", .label ⟨2⟩]⟩] := by cbv
  refine ⟨rfl, by simp [Model.Sited, m, Model.tree], hacyclic, hend, hsent,
    Context.labels_of_any hlabel, _, ⟨rfl, rfl⟩, rfl, ?_⟩
  rintro ⟨owner, declaring, returned, types, owns, places, -, -, -, -, -, -, -, hplaces, hrows⟩
  have hplace : places.length = 1 := hplaces.length_eq.symm
  have hlength := congrArg List.length (hheaded.symm.trans hrows)
  simp only [List.length_cons, List.length_append, List.length_map, List.length_nil] at hlength
  omega

end

end TrapUnit

end TrapFacts
