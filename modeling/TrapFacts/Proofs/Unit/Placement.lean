import TrapFacts.Proofs.Engine.Guards
import TrapFacts.Proofs.Unit.WellFormed

/-! Where the trails of a source file open guards and state what they state. -/

namespace TrapFacts

variable {u : ScopedUnit} {m : Model} {o owed : List Due} {b : Bool} {cx cx₁ cx' : Context}
  {e : Event} {slot : Slot} {en : Entity} {l : Label}

/-- The symbol that an entity with a guard of its own was made from. -/
def Entity.guarded? : Entity → Option SymbolId
  | .namedType t => some t.symbol
  | .method f => some f.symbol
  | _ => none

/-- The entity's label in a guard of its own. -/
def Record.pushed? : Record → Option Label
  | .push (.label l _) => some l
  | _ => none

/-- The label that a row is about: a parameter's row is about the method. -/
def Tuple.about? (t : Tuple) : Option Label :=
  if t.relation = "params" then t.args.getLast?.bind Value.label?
  else t.args.head?.bind Value.label?

/-- All relations that have rows about an entity. -/
def Entity.rows : Entity → List String
  | .file _ => ["files", "numlines"]
  | .location _ _ => ["locations_default"]
  | .assembly _ _ _ => ["assemblies"]
  | .space _ _ _ => ["namespaces", "parent_namespace"]
  | .namedType _ => ["types", "parent_namespace", "nested_types", "constructed_from",
      "type_location"]
  | .pointer _ _ => ["types", "pointer_referent_type"]
  | .method _ => ["methods", "returns", "accessors", "method_location", "params"]
  | .custom _ => []

def Event.pushed? (e : Event) : Option Label :=
  e.record?.bind Record.pushed?

/-- The label of an entity with a guard of its own, where its description begins. -/
def Event.guarded? : Event → Option Label
  | .populating en l => if en.behavior = .pushesScope then some l else none
  | _ => none

namespace ScopedUnit

/-- A label that was given to an entity, or under which it is described. -/
def Bears (cx : Context) (en : Entity) (l : Label) : Prop :=
  cx.Introduced en l ∨ .populating en l ∈ cx.events

theorem Bears.mono (h : Bears cx en l) (he : cx.events <+: cx'.events) : Bears cx' en l :=
  h.imp (·.mono he) (he.subset ·)

/-- A row stands where its entity is described, if it is about an entity. -/
def RowAt (t : Tuple) (guards : List Key) (cx : Context) : Prop :=
  t.relation ∈ "compilations" :: looseRelations ∨ ∃ en l, Bears cx en l ∧
    t.about? = some l ∧ t.relation ∈ en.rows ∧ (en.behavior = .noScope → guards = []) ∧
    (en.behavior = .pushesScope → ∃ place, guards = [.label l (.ofLabel place)])

variable (u)

/-- What a moment shows of its place. -/
def Fitting (e : Event) (guards : List Key) (cx : Context) : Prop :=
  match e with
  | .wrote (.tuple t) => RowAt t guards cx
  | .wrote (.push key) => ∃ en l place, Bears cx en l ∧ en.behavior = .pushesScope ∧
      key = .label l (.ofLabel place) ∧ u.model.PlaceAt cx en.reportingLocation? place
  | _ => True

/-- All moments show their place, no two guards are open at any, and guards are opened for the
descriptions that begin in them. -/
structure Placing (cx : Context) : Prop where
  moments : ∀ now ∈ cx.moments, now.guards.length ≤ 1 ∧ u.Fitting now.event now.guards cx
  paired : cx.events.filterMap Event.pushed? = cx.events.filterMap Event.guarded?

variable {u}

theorem lasting_fitting (u : ScopedUnit) (e : Event) (guards : List Key) :
    Lasting (u.Fitting e guards) := by
  intro cx cx' h he
  unfold Fitting at h ⊢
  split
  · rcases h with hr | ⟨en, l, hi, h⟩
    · exact .inl hr
    · exact .inr ⟨en, l, hi.mono he, h⟩
  · obtain ⟨en, l, place, hi, hb, hk, hp⟩ := h
    exact ⟨en, l, place, hi.mono he, hb, hk, hp.mono he⟩
  · trivial

namespace Placing

theorem append {ms : List Moment} (h : u.Placing cx) (hm : cx'.moments = cx.moments ++ ms)
    (hn : ∀ now ∈ ms, now.guards.length ≤ 1 ∧ u.Fitting now.event now.guards cx')
    (hp : (ms.map Moment.event).filterMap Event.pushed? =
      (ms.map Moment.event).filterMap Event.guarded?) : u.Placing cx' := by
  have he : cx'.events = cx.events ++ ms.map Moment.event := by
    rw [Context.events, hm, List.map_append, ← Context.events]
  refine ⟨fun now hnow => ?_,
    by rw [he, List.filterMap_append, List.filterMap_append, h.paired, hp]⟩
  rw [hm, List.mem_append] at hnow
  rcases hnow with hnow | hnow
  · exact ⟨(h.moments now hnow).1, u.lasting_fitting _ _ (h.moments now hnow).2 ⟨_, he.symm⟩⟩
  · exact hn now hnow

/-- One more event, which opens no guard and begins no description that has one. -/
theorem event (h : u.Placing cx) (hm : cx'.moments = cx.moments ++ [cx₁.moment e])
    (hg : cx₁.guards.length ≤ 1) (hf : u.Fitting e cx₁.guards cx')
    (hp : e.pushed? = none ∧ e.guarded? = none) : u.Placing cx' := by
  refine h.append hm (fun now hnow => ?_) ?_
  · rw [List.mem_singleton.1 hnow]
    exact ⟨hg, hf⟩
  · simp [Context.moment, hp.1, hp.2]

theorem still (h : u.Placing cx) (hm : cx'.moments = cx.moments) : u.Placing cx' :=
  h.append (by rw [hm, List.append_nil]) (by simp) rfl

/-- Facts are stated where the guard of their description is open, or none has to be. -/
theorem stating (h : u.Placing cx) (hs : u.Stating cx cx') (ha : u.scope.isAssembly = false)
    (hg : cx.guards.length ≤ 1) : u.Placing cx' := by
  cases hs with
  | @fact t hr _ hapt =>
    refine h.event (Context.moments_log _ _) hg ?_ ⟨rfl, rfl⟩
    rcases hapt with hloose | ⟨en, l, rest, hi, hargs, hrel, hposted⟩
    · exact .inl (List.mem_cons_of_mem _ hloose)
    · refine .inr ⟨en, l, .inl (hi.mono (by simp)), ?_, ?_, (hposted ha).1, fun hb => ?_⟩
      · have hne : t.relation ≠ "params" := by
          rintro heq
          simp [heq, describing] at hr
        simp [Tuple.about?, hne, hargs, Value.label?]
      · revert hrel
        cases en <;> simp only [Entity.relations, Entity.rows, List.mem_cons] <;> tauto
      · obtain ⟨place, hguards, _⟩ := (hposted ha).2 hb
        exact ⟨place, hguards⟩
  | compilation =>
    have hfresh : u.Placing (cx.allocate.write (.fresh cx.nextLabel)) :=
      h.event (Context.moments_log _ _) hg trivial ⟨rfl, rfl⟩
    exact hfresh.event (Context.moments_log _ _) hg (.inl List.mem_cons_self) ⟨rfl, rfl⟩
  | @parameter args f l _ hlast hi hposted =>
    have hfresh : u.Placing (cx.allocate.write (.fresh cx.nextLabel)) :=
      h.event (Context.moments_log _ _) hg trivial ⟨rfl, rfl⟩
    refine hfresh.event (Context.moments_log _ _) hg
      (.inr ⟨_, l, .inl (hi.mono ?_), ?_, ?_, ?_, ?_⟩)
      ⟨rfl, rfl⟩
    · exact ((Frame.deed (.fresh cx)).trans (.deed (.emit _ _))).events
    · have hlast' : (Value.label cx.nextLabel :: args).getLast? = some (.label l) := by
        cases args with
        | nil => cases hlast
        | cons a args => simpa using hlast
      simp [Tuple.about?, hlast', Value.label?]
    · simp [Entity.rows]
    · exact (hposted ha).1
    · intro hb
      obtain ⟨place, hguards, _⟩ := (hposted ha).2 hb
      exact ⟨place, hguards⟩
  | missingType => exact h.event (Context.moments_log _ _) hg trivial ⟨rfl, rfl⟩
  | openGenerics => exact h.still rfl

theorem introduce (h : u.Placing cx) (hg : cx.guards.length ≤ 1) :
    u.Placing (cx.introduce slot en).2 := by
  have hquiet : ∀ e ∈ cx.collision en.key.render ++ [Event.wrote (.define cx.nextLabel en.key),
      .created slot ⟨cx.nextLabel, en⟩], ∀ guards,
      u.Fitting e guards (cx.introduce slot en).2 ∧ e.pushed? = none ∧ e.guarded? = none := by
    intro e he guards
    simp only [List.mem_append, List.mem_cons, List.not_mem_nil, or_false] at he
    rcases he with hc | rfl | rfl
    · obtain ⟨message, rfl⟩ := cx.sent_of_mem_collision _ hc
      exact ⟨trivial, rfl, rfl⟩
    · exact ⟨trivial, rfl, rfl⟩
    · exact ⟨trivial, rfl, rfl⟩
  refine h.append (cx.moments_introduce slot en) (fun now hnow => ?_) ?_
  · obtain ⟨e, he, rfl⟩ := List.mem_map.1 hnow
    exact ⟨hg, (hquiet e he _).1⟩
  · have hevents (es : List Event) : (es.map cx.moment).map Moment.event = es :=
      (List.map_map ..).trans (List.map_id' es)
    rw [hevents, List.filterMap_eq_nil_iff.2 fun e he => (hquiet e he []).2.1,
      List.filterMap_eq_nil_iff.2 fun e he => (hquiet e he []).2.2]

theorem rowAt_opening {relation : String} {args : List Value} {guards : List Key}
    (hrel : en.relation? = some relation) (hb : Bears cx en l)
    (hg : (en.behavior = .noScope → guards = []) ∧
      (en.behavior = .pushesScope → ∃ place, guards = [.label l (.ofLabel place)])) :
    RowAt ⟨relation, .label l :: args⟩ guards cx := by
  refine .inr ⟨en, l, hb, ?_, ?_, hg⟩
  · have hne : relation ≠ "params" := by
      rintro rfl
      cases en <;> simp [Entity.relation?] at hrel
    simp [Tuple.about?, hne, Value.label?]
  · cases en <;> simp_all [Entity.relation?, Entity.rows]

/-- A description without a guard opens with its row. -/
theorem opening (h : u.Placing cx) (ha : u.scope.isAssembly = false)
    (hb : en.behavior ≠ .pushesScope) (hg : cx.guards.length ≤ 1)
    (ho : u.manner.opening en l (cx.populating en l) cx') : u.Placing cx' := by
  obtain ⟨⟨relation, args, hrel, _, rfl⟩, hposted⟩ := ho
  have hpopulating : u.Placing (cx.populating en l) :=
    h.event (Context.moments_log _ _) hg trivial ⟨rfl, if_neg hb⟩
  refine hpopulating.event (Context.moments_log _ _) hg (rowAt_opening hrel (.inr (by simp)) ?_)
    ⟨rfl, rfl⟩
  exact ⟨(hposted ha).1, fun hb' => absurd hb' hb⟩

/-- So it does in a guard of its own. -/
theorem openingGuarded {place : Label} (h : u.Placing cx) (hb : en.behavior = .pushesScope)
    (hg : cx.guards = []) (hp : u.model.PlaceAt cx en.reportingLocation? place)
    (ho : u.manner.opening en l ((cx.openGuard (.label l (.ofLabel place))).populating en l) cx') :
    u.Placing cx' := by
  obtain ⟨⟨relation, args, hrel, _, rfl⟩, -⟩ := ho
  let key : Key := .label l (.ofLabel place)
  let opened : Context := { cx with guards := key :: cx.guards }
  have hguards : opened.guards = [key] := congrArg (key :: ·) hg
  have hone : opened.guards.length ≤ 1 := by simp [hguards]
  let row : Event := .wrote (.tuple ⟨relation, .label l :: args⟩)
  have hmoments : (((cx.openGuard key).populating en l).write
      (.tuple ⟨relation, .label l :: args⟩)).moments =
      cx.moments ++ [opened.moment (.wrote (.push key)),
        (cx.openGuard key).moment (.populating en l),
        ((cx.openGuard key).populating en l).moment row] := by
    rw [Context.moments_write, Context.moments_populating,
      show (cx.openGuard key).moments = cx.moments ++ [opened.moment (.wrote (.push key))] from
        opened.moments_write _]
    simp [row]
  refine h.append hmoments ?_ ?_
  · simp only [List.forall_mem_cons, List.not_mem_nil, false_imp_iff, implies_true, and_true]
    refine ⟨⟨hone, en, l, place, .inr (by simp), hb, rfl, hp.mono (by simp)⟩, ⟨hone, trivial⟩,
      hone, ?_⟩
    refine rowAt_opening hrel (.inr (by simp)) ⟨fun hn => absurd (hn.symm.trans hb) (by simp), ?_⟩
    exact fun _ => ⟨place, hguards⟩
  · simp [Context.moment, row, key, List.filterMap_cons, Event.pushed?, Event.record?,
      Record.pushed?, Event.guarded?, hb]

end Placing

end ScopedUnit

/-- The trails of a source file keep guards and rows in their places. -/
theorem Trail.placing (h : Trail u.world u.manner o b cx cx') (ha : u.scope.isAssembly = false)
    (hp : u.Placing cx) (hg : cx.guards.length ≤ 1) : u.Placing cx' := by
  induction h with
  | refl => exact hp
  | trans h _ ih ih' => exact ih' (ih hp hg) (h.frame.guards ▸ hg)
  | stop _ _ ih => exact ih hp hg
  | caught hc => exact hc.elim
  | deed h => exact hp.stating h ha hg
  | sent | complaint | excused | reported | limit | served | deferred =>
    exact hp.event (Context.moments_log _ _) hg trivial ⟨rfl, rfl⟩
  | guarded _ hguard => exact hguard.elim
  | nested _ _ _ ih =>
    exact (ih (hp.event (Context.moments_log _ _) hg trivial ⟨rfl, rfl⟩) hg).still rfl
  | introduced hs _ _ ih => exact ih (hp.introduce hg) ((Frame.introduce hs).guards ▸ hg)
  | described hb _ hopen _ _ ih =>
    have hg' := (Trail.of_deeds (w := u.world) (m := .free) (u.manner.openings hopen)).frame.guards
    have hb := hb.resolve_right fun ha' => Bool.false_ne_true (ha.symm.trans ha')
    exact ih (hp.opening ha hb hg hopen) (hg' ▸ hg)
  | @describedGuarded _ cx₁ _ cx' cx _ place hb _ _ _ hsite hopen h _ ih =>
    have hg' := (Trail.of_deeds (w := u.world) (m := .free) (u.manner.openings hopen)).frame.guards
    obtain ⟨_, hguards, _⟩ := (hopen.2 ha).2 hb
    have hone : cx₁.guards.length ≤ 1 := by simp [hg', hguards]
    have hinner := ih (hp.openingGuarded hb (List.cons.inj hguards).2 hsite hopen) hone
    refine hinner.event (Context.moments_log _ _) ?_ trivial ⟨rfl, rfl⟩
    change cx'.guards.tail.length ≤ 1
    rw [h.frame.guards, List.length_tail]
    omega
  | @taken _ _ cx a rest _ _ ih =>
    have htaken : u.Placing (cx.take a rest) :=
      hp.event (Context.moments_log _ _) hg trivial ⟨rfl, rfl⟩
    exact ih (htaken.event (Context.moments_log _ _) hg trivial ⟨rfl, rfl⟩) hg
  | takenGuarded _ _ hguard => exact hguard.elim

end TrapFacts
