import TrapFacts.Proofs.Engine.RunnerShows

/-! Conditions that a whole run leaves true, if the making of entities and the acts of programs
do. -/

namespace TrapFacts

variable {α β : Type} {cx cx₁ cx' : Context} {en : Entity} {l : Label} {slot : Slot} {run : Runner}

/-- What a program does on its own account, apart from the entities that it makes. -/
inductive Act where
  | states (fact : Tuple)
  | opens (label : Label)
  /-- Takes a label for itself. -/
  | labels
  | misses (name : String)

def Act.perform : Act → Context → Context
  | states fact, cx => cx.write (.tuple fact)
  | opens label, cx => cx.openGenerics label
  | labels, cx => cx.allocate.write (.fresh cx.nextLabel)
  | misses name, cx => cx.missingType name

theorem Act.frame (a : Act) (cx : Context) : Frame cx (a.perform cx) := by
  cases a with
  | states => exact .deed (.emit _ _)
  | opens => exact .deed (.openGenerics _ _)
  | labels => exact .deed (.fresh _)
  | misses => exact .deed (.missingType _ _)

theorem Act.queue (a : Act) (cx : Context) : (a.perform cx).queue = cx.queue := by
  cases a <;> rfl

namespace Prog

/-- A program that makes entities, and does what it may. It opens no guards, it neither queues nor
drains, and it leaves the extractor to others. -/
def Acts {α : Type} (may : Act → Prop) : Prog α → Prop
  | .pure _ => True
  | .fail _ => True
  | .fresh k => may .labels ∧ ∀ l, (k l).Acts may
  | .define _ _ => False
  | .emit t k => may (.states t) ∧ k.Acts may
  | .send _ _ => False
  | .modelError _ _ k => k.Acts may
  | .missingType n k => may (.misses n) ∧ k.Acts may
  | .setAssemblyFile _ _ _ => False
  | .assemblyFile _ k => ∀ file, (k file).Acts may
  | .openGenerics l k => may (.opens l) ∧ ∀ new, (k new).Acts may
  | .snapshot _ => False
  | .note _ _ => False
  | .guarded _ _ _ => False
  | .attempt _ _ body k => body.Acts may ∧ k.Acts may
  | .catch _ _ => False
  | .later _ _ => False
  | .drain _ => False
  | .create _ _ _ _ => False
  | .summon _ k => ∀ c, (k c).Acts may

/-- A program that makes entities and does nothing else. -/
abbrev Gathers (p : Prog α) : Prop :=
  p.Acts fun _ => False

namespace Acts

variable {may may' : Act → Prop} {p : Prog α}

theorem mono (h : p.Acts may) (hm : ∀ a, may a → may' a) : p.Acts may' := by
  induction p with
  | pure | fail => trivial
  | fresh _ ih | openGenerics _ _ ih => exact ⟨hm _ h.1, fun a => ih a (h.2 a)⟩
  | emit _ _ ih | missingType _ _ ih => exact ⟨hm _ h.1, ih h.2⟩
  | modelError _ _ _ ih => exact ih h
  | assemblyFile _ _ ih | summon _ _ ih => exact fun a => ih a (h a)
  | attempt _ _ _ _ ihb ih => exact ⟨ihb h.1, ih h.2⟩
  | define | send | setAssemblyFile | snapshot | note | guarded | «catch» | later | drain
  | create =>
    exact h.elim

theorem bind {f : α → Prog β} (h : p.Acts may) (hf : ∀ a, (f a).Acts may) :
    (p.bind f).Acts may := by
  induction p with
  | pure a => exact hf a
  | fail => trivial
  | fresh _ ih | openGenerics _ _ ih => exact ⟨h.1, fun a => ih a (h.2 a) hf⟩
  | emit _ _ ih | missingType _ _ ih | attempt _ _ _ _ _ ih => exact ⟨h.1, ih h.2 hf⟩
  | modelError _ _ _ ih => exact ih h hf
  | assemblyFile _ _ ih | summon _ _ ih => exact fun a => ih a (h a) hf
  | define | send | setAssemblyFile | snapshot | note | guarded | «catch» | later | drain
  | create =>
    exact h.elim

theorem read {r : Except Failure β} {f : β → Prog α} (h : ∀ b, r = .ok b → (f b).Acts may) :
    ((Prog.ofExcept r).bind f).Acts may := by
  cases r with
  | ok b => exact h b rfl
  | error => trivial

theorem each {items : List β} {body : β → Prog Unit} (h : ∀ b ∈ items, (body b).Acts may) :
    (Prog.each items body).Acts may := by
  induction items with
  | nil => trivial
  | cons b items ih =>
    exact (h b List.mem_cons_self).bind fun _ => ih fun b hb => h b (List.mem_cons_of_mem _ hb)

theorem collect {items : List β} {body : β → Prog α} (h : ∀ b ∈ items, (body b).Acts may) :
    (Prog.collect items body).Acts may := by
  induction items with
  | nil => trivial
  | cons b items ih =>
    refine (h b List.mem_cons_self).bind fun a => ?_
    exact (ih fun b hb => h b (List.mem_cons_of_mem _ hb)).bind fun _ => trivial

end Acts

end Prog

/-- An event of the engine's own: neither an entity nor a fact nor a warning. -/
def Event.Plain (cx : Context) : Event → Prop
  | .wrote record => record = .pop ∨ ∃ key, record = .push key
  | .sent message _ => message.severity = .error
  | .served slot c => cx.same? slot c.entity = some c
  | .making _ | .queued _ _ | .taken _ | .began _ | .limitHit => True
  | .missing _ | .created _ _ | .populating _ _ | .noted _ => False

theorem Event.Plain.fact? {e : Event} (h : e.Plain cx) : e.fact? = none := by
  cases e with
  | wrote record => rcases h with rfl | ⟨key, rfl⟩ <;> rfl
  | _ => rfl

theorem Event.Plain.described? {e : Event} (h : e.Plain cx) : e.described? = none := by
  cases e with
  | populating => exact h.elim
  | _ => rfl

namespace Context

/-- The facts of a relation in the trap, in order. -/
def stated (cx : Context) (relation : String) : List Tuple :=
  (cx.trap.filterMap Record.fact?).filter fun t => t.relation = relation

theorem stated_eq (cx : Context) (relation : String) :
    cx.stated relation =
      (cx.events.filterMap Event.fact?).filter fun t => t.relation = relation := by
  rw [stated, trap_eq]
  exact congrArg (List.filter _) List.filterMap_filterMap

theorem mem_stated {relation : String} {t : Tuple} :
    t ∈ cx.stated relation ↔ ∃ e ∈ cx.events, e.fact? = some t ∧ t.relation = relation := by
  rw [stated_eq, List.mem_filter, List.mem_filterMap, decide_eq_true_iff]
  refine ⟨fun ⟨⟨e, he, hf⟩, hr⟩ => ⟨e, he, hf, hr⟩, fun ⟨e, he, hf, hr⟩ => ⟨⟨e, he, hf⟩, hr⟩⟩

theorem stated_append {es : List Event} (he : cx'.events = cx.events ++ es) (relation : String) :
    cx'.stated relation =
      cx.stated relation ++ (es.filterMap Event.fact?).filter fun t => t.relation = relation := by
  rw [stated_eq, he, List.filterMap_append, List.filter_append, stated_eq]

/-- Events that state no fact of a relation. -/
theorem stated_apart {es : List Event} (he : cx'.events = cx.events ++ es) {relation : String}
    (h : ∀ e ∈ es, ∀ t, e.fact? = some t → t.relation ≠ relation) :
    cx'.stated relation = cx.stated relation := by
  rw [stated_append he, List.append_right_eq_self, List.filter_eq_nil_iff]
  intro t ht
  obtain ⟨e, hm, hf⟩ := List.mem_filterMap.1 ht
  simpa using h e hm t hf

theorem facts_introduce (cx : Context) (slot : Slot) (en : Entity) :
    ∃ es, (cx.introduce slot en).2.events = cx.events ++ es ∧
      (∀ e ∈ es, e.fact? = none) ∧ ∀ e ∈ es, e.described? = none := by
  refine ⟨cx.collision en.key.render ++ [.wrote (.define cx.nextLabel en.key),
    .created slot ⟨cx.nextLabel, en⟩], by rw [events_introduce, List.append_assoc], ?_⟩
  refine ⟨fun e he => ?_, fun e he => ?_⟩ <;>
    simp only [List.mem_append, List.mem_cons, List.not_mem_nil, or_false] at he <;>
    rcases he with he | rfl | rfl
  all_goals first
    | rfl
    | rw [cx.eq_of_mem_collision he]; rfl

/-- What an object stands for is what its slot has, whatever was made. -/
theorem same?_of_known {c : Created} (h : cx.known? slot = some c) (en : Entity) :
    cx.same? slot en = some c := by
  cases slot with
  | value => cases h
  | object => exact h

/-- What the engine does to a context on its own account. -/
structure Steps (cx cx' : Context) : Prop where
  events : ∃ es, cx'.events = cx.events ++ es ∧ ∀ e ∈ es, e.Plain cx
  same : cx'.same? = cx.same?
  keys : cx'.keys = cx.keys
  generics : cx'.generics = cx.generics
  config : cx'.extractor.config = cx.extractor.config
  files : cx'.extractor.assemblyFile? = cx.extractor.assemblyFile?

/-- What waits are descriptions of entities that were introduced. -/
def Waits (desc : Entity → Label → Prog Unit) (cx : Context) : Prop :=
  ∀ a ∈ cx.queue, ∃ en l, a.work = .population en l (desc en l) ∧
    ∃ slot, .created slot ⟨l, en⟩ ∈ cx.events

theorem Steps.event {e : Event} (he : e.Plain cx) (hevents : cx'.events = cx.events ++ [e])
    (hs : cx'.same? = cx.same?) (hk : cx'.keys = cx.keys) (hg : cx'.generics = cx.generics)
    (hc : cx'.extractor.config = cx.extractor.config)
    (hf : cx'.extractor.assemblyFile? = cx.extractor.assemblyFile?) : cx.Steps cx' :=
  ⟨⟨[e], hevents, by simpa using he⟩, hs, hk, hg, hc, hf⟩

theorem Steps.log {e : Event} (he : e.Plain cx) : cx.Steps (cx.log e) :=
  .event he (cx.events_log e) rfl rfl rfl rfl rfl

theorem Steps.send {message : Message} (h : message.severity = .error) (about : Option Concern) :
    cx.Steps (cx.send message about) :=
  .event (e := .sent message about) h (cx.events_send message about) rfl rfl rfl rfl rfl

theorem Steps.leave : cx.Steps cx.leave :=
  ⟨⟨[], by simp, by simp⟩, rfl, rfl, rfl, rfl, rfl⟩

/-- Steps only add events. -/
theorem Steps.grows (h : cx.Steps cx') : cx.events <+: cx'.events := by
  obtain ⟨es, he, -⟩ := h.events
  exact ⟨es, he.symm⟩

theorem Waits.along {desc : Entity → Label → Prog Unit} (h : cx.Waits desc)
    (he : cx.events <+: cx'.events) (hq : cx'.queue = cx.queue) : cx'.Waits desc := by
  intro a ha
  obtain ⟨en, l, hw, slot, hc⟩ := h a (hq ▸ ha)
  exact ⟨en, l, hw, slot, he.subset hc⟩

end Context

/-- A condition on contexts, and what it takes of the entities that factories make. -/
structure ContextInvariant where
  holds : Context → Prop
  yields : Recipe → Entity → Context → Prop
  yielded : ∀ {recipe en cx cx'}, yields recipe en cx → cx.events <+: cx'.events →
    yields recipe en cx'

namespace ContextInvariant

variable {U : ContextInvariant} {w : World} {desc : Entity → Label → Prog Unit} {may : Act → Prop}

/-- The condition holds, and what waits are descriptions. -/
structure Stands (U : ContextInvariant) (desc : Entity → Label → Prog Unit) (cx : Context) :
    Prop where
  holds : U.holds cx
  waits : cx.Waits desc

/-- The condition holds again afterwards. -/
structure Kept (U : ContextInvariant) (desc : Entity → Label → Prog Unit) (cx cx' : Context) :
    Prop where
  stands : U.Stands desc cx'
  frame : Frame cx cx'

/-- What is done from a context on leaves the condition true. -/
def Permits (U : ContextInvariant) (cx : Context) (may : Act → Prop) : Prop :=
  ∀ a cx₁, Frame cx cx₁ → may a → U.holds cx₁ → U.holds (a.perform cx₁)

/-- What the making of an entity returns. -/
structure Returns (U : ContextInvariant) (w : World) (recipe : Recipe) (c : Created)
    (cx : Context) :
    Prop where
  served : .served (w.catalog recipe).slot c ∈ cx.events
  made : (w.catalog recipe).slot = .value → U.yields recipe c.entity cx

/-- A way to run programs that leaves the condition true. -/
structure RunnerKeeps (U : ContextInvariant) (w : World) (desc : Entity → Label → Prog Unit)
    (run : Runner) :
    Prop where
  acts : ∀ {α : Type} {p : Prog α} {may : Act → Prop} {cx : Context}, p.Acts may →
    U.Permits cx may → U.Stands desc cx → U.Kept desc cx (run α p cx).context
  factory : ∀ {recipe cx en}, U.Stands desc cx →
    (run Entity (w.catalog recipe).factory cx).outcome = .done en →
    U.yields recipe en (run Entity (w.catalog recipe).factory cx).context
  body : ∀ {en l cx}, U.Stands desc cx → (∃ slot, .created slot ⟨l, en⟩ ∈ cx.events) →
    U.Kept desc cx (run Unit (desc en l) (cx.populating en l)).context

/-- The engine leaves the condition true, and so do new entities. -/
structure EngineKeeps (U : ContextInvariant) (w : World) (desc : Entity → Label → Prog Unit) :
    Prop where
  described : ∀ recipe, (w.catalog recipe).body = desc
  gathers : ∀ recipe, (w.catalog recipe).factory.Gathers
  step : ∀ {cx cx'}, U.holds cx → cx.Steps cx' → U.holds cx'
  introduce : ∀ {recipe en cx}, U.holds cx → cx.same? (w.catalog recipe).slot en = none →
    U.yields recipe en cx → U.holds (cx.introduce (w.catalog recipe).slot en).2

/-- So do descriptions. -/
structure DescriptionsKeep (U : ContextInvariant) (w : World) (desc : Entity → Label → Prog Unit) :
    Prop
    extends U.EngineKeeps w desc where
  factory : ∀ {deeper drain recipe cx en}, (∀ run, deeper = some run → U.RunnerKeeps w desc run) →
    U.Stands desc cx → (w.eval deeper drain (w.catalog recipe).factory cx).outcome = .done en →
    U.yields recipe en (w.eval deeper drain (w.catalog recipe).factory cx).context
  body : ∀ {deeper drain en l cx}, (∀ run, deeper = some run → U.RunnerKeeps w desc run) →
    U.Stands desc cx → (∃ slot, .created slot ⟨l, en⟩ ∈ cx.events) →
    U.Kept desc cx (w.eval deeper drain (desc en l) (cx.populating en l)).context

theorem Permits.along (h : U.Permits cx may) (hf : Frame cx cx') : U.Permits cx' may :=
  fun a cx₁ hf₁ => h a cx₁ (hf.trans hf₁)

theorem permits_none : U.Permits cx fun _ => False :=
  fun _ _ _ hm => hm.elim

namespace Kept

theorem refl (h : U.Stands desc cx) : U.Kept desc cx cx :=
  ⟨h, .refl cx⟩

theorem trans (h : U.Kept desc cx cx₁) (h' : U.Kept desc cx₁ cx') : U.Kept desc cx cx' :=
  ⟨h'.stands, h.frame.trans h'.frame⟩

theorem act {a : Act} (h : U.Stands desc cx) (hp : U.Permits cx may) (ha : may a) :
    U.Kept desc cx (a.perform cx) :=
  ⟨⟨hp a cx (.refl cx) ha h.holds, h.waits.along (a.frame cx).events (a.queue cx)⟩, a.frame cx⟩

theorem andThen {r : Reply α} {next : α → Context → Reply β} (h : U.Kept desc cx r.context)
    (hn : ∀ a cx₁, r = ⟨.done a, cx₁⟩ → U.Kept desc cx cx₁ →
      U.Kept desc cx₁ (next a cx₁).context) : U.Kept desc cx (r.andThen next).context := by
  obtain ⟨o, cx₁⟩ := r
  cases o with
  | done a => exact h.trans (hn a cx₁ rfl h)
  | failed | exhausted => exact h

end Kept

variable (hu : U.EngineKeeps w desc)

include hu

namespace EngineKeeps

theorem stands (h : U.Stands desc cx) (hs : cx.Steps cx') (hq : cx'.queue = cx.queue) :
    U.Stands desc cx' :=
  ⟨hu.step h.holds hs, h.waits.along hs.grows hq⟩

theorem kept (h : U.Stands desc cx) (hs : cx.Steps cx') (hq : cx'.queue = cx.queue)
    (hf : Frame cx cx') : U.Kept desc cx cx' :=
  ⟨hu.stands h hs hq, hf⟩

theorem log {e : Event} (h : U.Stands desc cx) (he : e.Plain cx) : U.Kept desc cx (cx.log e) :=
  hu.kept h (.log he) rfl (.log cx e)

theorem send {message : Message} {about : Option Concern} (h : U.Stands desc cx)
    (hm : message.severity = .error) : U.Kept desc cx (cx.send message about) :=
  hu.kept h (.send hm about) rfl (.send cx message about)

theorem enqueue (h : U.Stands desc cx) (hc : .created slot ⟨l, en⟩ ∈ cx.events) :
    U.Kept desc cx (cx.enqueue (.population en l (desc en l))) := by
  have hf := Frame.enqueue cx (.population en l (desc en l))
  refine ⟨⟨hu.step h.holds (.event ?_ (cx.events_enqueue _) rfl rfl rfl rfl rfl), ?_⟩, hf⟩
  · trivial
  · intro a ha
    rcases List.mem_append.1 (show a ∈ cx.queue ++ [_] from ha) with ha | ha
    · obtain ⟨en', l', hw, slot', hc'⟩ := h.waits a ha
      exact ⟨en', l', hw, slot', hf.events.subset hc'⟩
    · obtain rfl := List.mem_singleton.1 ha
      exact ⟨en, l, rfl, slot, hf.events.subset hc⟩

/-- Taking from the queue keeps what the work that waits is known for. -/
theorem take {a : Pending} {rest : List Pending} (h : U.Stands desc cx)
    (hq : cx.queue = a :: rest) : U.Kept desc cx (cx.take a rest) := by
  have hf := Frame.take cx a rest
  refine ⟨⟨hu.step h.holds (.event ?_ (cx.events_take a rest) rfl rfl rfl rfl rfl), ?_⟩, hf⟩
  · trivial
  · intro a' ha'
    obtain ⟨en, l, hw, slot, hc⟩ := h.waits a' (hq ▸ List.mem_cons_of_mem a ha')
    exact ⟨en, l, hw, slot, hf.events.subset hc⟩

/-- An entity that is new keeps the invariant, if it is one that its recipe yields. -/
theorem introduced {recipe : Recipe} (h : U.Stands desc cx)
    (hn : cx.same? (w.catalog recipe).slot en = none) (hy : U.yields recipe en cx) :
    U.Kept desc cx (cx.introduce (w.catalog recipe).slot en).2 := by
  have hf := Frame.introduce hn
  exact ⟨⟨hu.introduce h.holds hn hy, h.waits.along hf.events (cx.queue_introduce _ _)⟩, hf⟩

end EngineKeeps

/-- Recovery keeps what held before the report. -/
theorem recover_kept {r : Reply Unit} (about : Option Concern) (node : Option NodeId)
    (symbol : Option SymbolId) (h : U.Kept desc cx r.context) :
    U.Kept desc cx (w.recover about node symbol r).context := by
  obtain ⟨o, cx₁⟩ := r
  cases o with
  | done | exhausted => exact h
  | failed e =>
    simp only [World.recover]
    split
    · exact h
    · exact h.trans (hu.send h.stands (w.model.severity_failureMessage e node symbol))

theorem guarding_kept {key : Key} {action : Context → Reply Unit} (h : U.Stands desc cx)
    (ha : ∀ cx₁, cx.events <+: cx₁.events → U.Stands desc cx₁ →
      U.Kept desc cx₁ (action cx₁).context) :
    U.Kept desc cx (w.guarding key action cx).context := by
  unfold World.guarding
  split
  · exact ha cx List.prefix_rfl h
  · have hopen : cx.Steps (cx.openGuard key) :=
      .event (e := .wrote (.push key)) (.inr ⟨key, rfl⟩) (cx.events_openGuard key) rfl rfl rfl rfl
        rfl
    have hmid := ha (cx.openGuard key) hopen.grows (hu.stands h hopen rfl)
    let inner := (action (cx.openGuard key)).context
    have hclose : inner.Steps inner.closeGuard :=
      .event (e := .wrote .pop) (.inl rfl) inner.events_closeGuard rfl rfl rfl rfl rfl
    exact ⟨hu.stands hmid.stands hclose rfl, .guarded hmid.frame⟩

section

variable (hrun : U.RunnerKeeps w desc run)

include hrun

/-- A description of an entity that was created keeps the invariant. -/
theorem describe_kept (h : U.Stands desc cx) (hc : ∃ slot, .created slot ⟨l, en⟩ ∈ cx.events) :
    U.Kept desc cx (w.describe run en l (desc en l) cx).context :=
  recover_kept hu _ _ _ (hrun.body h hc)

theorem populate_kept (h : U.Stands desc cx) (hc : ∃ slot, .created slot ⟨l, en⟩ ∈ cx.events) :
    U.Kept desc cx (w.populate run en l (desc en l) cx).context := by
  have hdescribe : ∀ cx₁, cx.events <+: cx₁.events → U.Stands desc cx₁ →
      U.Kept desc cx₁ (w.describe run en l (desc en l) cx₁).context := by
    intro cx₁ he h₁
    obtain ⟨slot, hc⟩ := hc
    exact describe_kept hu hrun h₁ ⟨slot, he.subset hc⟩
  unfold World.populate
  split
  · have hplace : (Prog.entity (.location en.reportingLocation?)).Gathers := fun _ => trivial
    refine (hrun.acts hplace permits_none h).andThen fun place cx₁ _ hk => ?_
    exact guarding_kept hu hk.stands fun cx₂ he => hdescribe cx₂ (hk.frame.events.trans he)
  · exact hdescribe cx List.prefix_rfl h

theorem schedule_kept (h : U.Stands desc cx) (hc : .created slot ⟨l, en⟩ ∈ cx.events) :
    U.Kept desc cx (w.schedule run en l (desc en l) cx).context := by
  have hcomplain : U.Kept desc cx
      (w.complain (en.behavior.plan (!cx.guards.isEmpty)) en l cx) := by
    unfold World.complain
    split
    · exact hu.send h (w.model.severity_complaint en)
    · exact .refl h
  unfold World.schedule
  dsimp only
  generalize w.complain _ en l cx = cx₁ at hcomplain
  have hc₁ := hcomplain.frame.events.subset hc
  split
  · exact hcomplain.trans (hu.enqueue hcomplain.stands hc₁)
  · exact hcomplain.trans
      (recover_kept hu _ _ _ (populate_kept hu hrun hcomplain.stands ⟨slot, hc₁⟩))

/-- What is settled on is what the slot has. -/
theorem settle_kept {recipe : Recipe} (h : U.Stands desc cx) (hy : U.yields recipe en cx) :
    let r := w.settle run (w.catalog recipe).slot desc en cx
    U.Kept desc cx r.context ∧ ∀ c, r.outcome = .done c →
      r.context.same? (w.catalog recipe).slot c.entity = some c := by
  intro r
  simp only [r]
  unfold World.settle
  cases hn : cx.same? (w.catalog recipe).slot en with
  | some c =>
    refine ⟨.refl h, ?_⟩
    rintro _ ⟨⟩
    generalize (w.catalog recipe).slot = slot at hn
    cases slot with
    | object => exact hn
    | value =>
      obtain ⟨l, hl, rfl⟩ := Option.map_eq_some_iff.1 hn
      exact hn
  | none =>
    have hnew := hu.introduced h hn hy
    have hsame : (cx.introduce (w.catalog recipe).slot en).2.same? (w.catalog recipe).slot en =
        some (cx.introduce (w.catalog recipe).slot en).1 := by
      rw [Context.same?_introduce, if_pos ⟨rfl, fun _ => rfl⟩]
      simp [Context.introduce]
    dsimp only
    split
    · have hcreated : .created (w.catalog recipe).slot ⟨cx.nextLabel, en⟩ ∈
          (cx.introduce (w.catalog recipe).slot en).2.events := by simp
      have hscheduled := schedule_kept hu hrun hnew.stands
        (l := (cx.introduce (w.catalog recipe).slot en).1.label) hcreated
      generalize w.schedule run en _ _ _ = r at hscheduled ⊢
      obtain ⟨o, cx₁⟩ := r
      cases o with
      | failed | exhausted => exact ⟨hnew.trans hscheduled, by rintro _ ⟨⟩⟩
      | done =>
        refine ⟨hnew.trans hscheduled, ?_⟩
        rintro _ ⟨⟩
        exact hscheduled.frame.same hsame
    · refine ⟨hnew, ?_⟩
      rintro _ ⟨⟩
      exact hsame

/-- A creation keeps the invariant, and what it made is found again. -/
theorem build_kept (recipe : Recipe) (h : U.Stands desc cx) :
    let r := w.build run (w.catalog recipe).slot (w.catalog recipe).factory desc cx
    U.Kept desc cx r.context ∧ ∀ c, r.outcome = .done c →
      r.context.same? (w.catalog recipe).slot c.entity = some c ∧
        ((w.catalog recipe).slot = .value → U.yields recipe c.entity r.context) := by
  intro r
  simp only [r, World.build]
  have henter : U.Stands desc (cx.enter (w.catalog recipe).slot) :=
    hu.stands h (.event (e := .making _) trivial (cx.events_enter _) rfl rfl rfl rfl rfl) rfl
  have hmade := hrun.acts (hu.gathers recipe) permits_none henter
  have hyields : ∀ en, (run Entity (w.catalog recipe).factory
      (cx.enter (w.catalog recipe).slot)).outcome = .done en → U.yields recipe en
        (run Entity (w.catalog recipe).factory (cx.enter (w.catalog recipe).slot)).context :=
    fun _ => hrun.factory henter
  generalize run Entity (w.catalog recipe).factory (cx.enter _) = r₁ at hmade hyields
  obtain ⟨o, cx₁⟩ := r₁
  have hleave : ∀ {cx₂ : Context}, U.Kept desc (cx.enter (w.catalog recipe).slot) cx₂ →
      U.Kept desc cx cx₂.leave := fun hk =>
    ⟨hu.stands hk.stands .leave rfl, .nested hk.frame⟩
  cases o with
  | failed | exhausted => exact ⟨hleave hmade, by rintro _ ⟨⟩⟩
  | done en =>
    have hy : U.yields recipe en cx₁ := hyields en rfl
    obtain ⟨hsettled, hsame⟩ := settle_kept hu hrun hmade.stands hy
    refine ⟨hleave (hmade.trans hsettled), fun c hc => ⟨hsame c hc, fun hv => ?_⟩⟩
    have hentity : c.entity = en := by
      simp only [Reply.andThen, hv] at hc
      exact World.settle_entity hc
    rw [hentity]
    exact U.yielded hy hsettled.frame.events

end

variable {deeper : Option Runner} (hdeeper : ∀ run, deeper = some run → U.RunnerKeeps w desc run)

include hdeeper

theorem obtain?_kept (recipe : Recipe) (h : U.Stands desc cx) :
    let c := w.catalog recipe
    let r := w.obtain? deeper c.slot c.factory c.body cx
    U.Kept desc cx r.context ∧ ∀ c, r.outcome = .done c → U.Returns w recipe c r.context := by
  intro c r
  simp only [r, c]
  rw [hu.described recipe]
  unfold World.obtain?
  cases hk : cx.known? (w.catalog recipe).slot with
  | some c =>
    have hv : (w.catalog recipe).slot ≠ .value := by
      intro hv
      rw [hv] at hk
      cases hk
    refine ⟨hu.log h (Context.same?_of_known hk c.entity), ?_⟩
    rintro _ ⟨⟩
    exact ⟨by simp, fun h => absurd h hv⟩
  | none =>
    cases deeper with
    | none => exact ⟨hu.log h trivial, by rintro _ ⟨⟩⟩
    | some run =>
      have hbuild := build_kept hu (hdeeper run rfl) recipe h
      dsimp only at hbuild ⊢
      generalize w.build run _ _ desc cx = r at hbuild ⊢
      obtain ⟨o, cx₁⟩ := r
      obtain ⟨hk₁, hresult⟩ := hbuild
      cases o with
      | failed | exhausted => exact ⟨hk₁, by rintro _ ⟨⟩⟩
      | done c =>
        obtain ⟨hsame, hmade⟩ := hresult c rfl
        have hserved := hu.log (e := .served (w.catalog recipe).slot c) hk₁.stands hsame
        refine ⟨hk₁.trans hserved, ?_⟩
        rintro _ ⟨⟩
        refine ⟨?_, fun hv => U.yielded (hmade hv) hserved.frame.events⟩
        simp only [Reply.andThen, Context.events_log, List.mem_append, List.mem_singleton, or_true]

/-- A program keeps the invariant that does only what is permitted. -/
theorem eval_acts {drain : Context → Reply Unit} {p : Prog α} (hp : p.Acts may)
    (hm : U.Permits cx may) (h : U.Stands desc cx) :
    U.Kept desc cx (w.eval deeper drain p cx).context := by
  induction p generalizing cx with
  | pure | fail => exact .refl h
  | fresh k ih | openGenerics _ k ih =>
    have hk := Kept.act h hm hp.1
    exact hk.trans (ih _ (hp.2 _) (hm.along hk.frame) hk.stands)
  | emit t k ih | missingType _ k ih =>
    have hk := Kept.act h hm hp.1
    exact hk.trans (ih hp.2 (hm.along hk.frame) hk.stands)
  | modelError symbol text k ih =>
    unfold World.eval
    split
    · exact ih hp hm h
    · exact .refl h
  | assemblyFile name k ih => exact ih _ (hp _) hm h
  | attempt node symbol body k ihb ihk =>
    have hbody := recover_kept hu none node symbol (ihb hp.1 hm h)
    exact hbody.andThen fun _ cx₁ _ hk => ihk hp.2 (hm.along hk.frame) hk.stands
  | summon recipe k ih =>
    have hmade := (obtain?_kept hu hdeeper recipe h).1
    exact Kept.andThen hmade fun c cx₁ _ hk => ih c (hp c) (hm.along hk.frame) hk.stands
  | define | send | setAssemblyFile | snapshot | note | guarded | «catch» | later | drain
  | create =>
    exact hp.elim

theorem eval_entity {drain : Context → Reply Unit} {recipe : Recipe} (h : U.Stands desc cx) :
    let r := w.eval deeper drain (.entity recipe) cx
    U.Kept desc cx r.context ∧ ∀ c, r.outcome = .done c → U.Returns w recipe c r.context := by
  intro r
  have hmade := obtain?_kept hu hdeeper recipe h
  dsimp only at hmade
  have hr : r = (w.obtain? deeper (w.catalog recipe).slot (w.catalog recipe).factory
      (w.catalog recipe).body cx).andThen fun c cx => ⟨.done c, cx⟩ := rfl
  rw [hr]
  generalize w.obtain? deeper _ _ _ cx = r₁ at hmade
  obtain ⟨o, cx₁⟩ := r₁
  cases o with
  | done => exact hmade
  | failed | exhausted => exact ⟨hmade.1, by rintro _ ⟨⟩⟩

omit hu in
theorem eval_runnerKeeps (hu : U.DescriptionsKeep w desc) (drain : Context → Reply Unit) :
    U.RunnerKeeps w desc fun _ p cx => w.eval deeper drain p cx where
  acts hp hm h := eval_acts hu.toEngineKeeps hdeeper hp hm h
  factory h hd := hu.factory hdeeper h hd
  body h hc := hu.body hdeeper h hc

omit hu hdeeper

/-- The invariant is kept at every depth, by induction on the room that is left. -/
theorem runWithin_runnerKeeps (hu : U.DescriptionsKeep w desc) (drain : Nat → Context → Reply Unit)
    (room : Nat) :
    U.RunnerKeeps w desc fun α p cx => w.runWithin drain room α p cx := by
  induction room with
  | zero => exact eval_runnerKeeps (by simp) hu (drain 0)
  | succ room ih =>
    refine eval_runnerKeeps ?_ hu (drain (room + 1))
    rintro run ⟨⟩
    exact ih

/-- Draining keeps the invariant, by induction on the budget of turns. -/
theorem drainWithin_kept (hu : U.DescriptionsKeep w desc) (budget room : Nat)
    (h : U.Stands desc cx) :
    U.Kept desc cx (w.drainWithin budget room cx).context := by
  induction budget generalizing cx with
  | zero =>
    unfold World.drainWithin
    split <;> exact .refl h
  | succ budget ih =>
    unfold World.drainWithin
    split
    · exact .refl h
    · next a rest hq =>
      have hrun := runWithin_runnerKeeps hu (fun room cx => w.drainWithin budget room cx) room
      have htaken := hu.take h hq
      have hbegan := htaken.trans (hu.log (e := .began a.number) htaken.stands trivial)
      obtain ⟨en, l, hw, slot, hc⟩ := h.waits a (hq ▸ List.mem_cons_self)
      have hresume : U.Kept desc cx (w.resume
          (fun α p cx => w.runWithin (fun room cx => w.drainWithin budget room cx) room α p cx)
          a (cx.take a rest)).context := by
        unfold World.resume
        rw [hw]
        refine hbegan.trans (recover_kept hu.toEngineKeeps _ _ _
          (populate_kept hu.toEngineKeeps hrun hbegan.stands ?_))
        exact ⟨slot, hbegan.frame.events.subset hc⟩
      exact hresume.andThen fun _ cx₁ _ hk => ih hk.stands

/-- What holds at the outset holds when a program has run, and all that it queued. -/
theorem run_kept (hu : U.DescriptionsKeep w desc) {p : Prog Unit} (hp : p.Acts may)
    (hm : U.Permits cx may)
    (h : U.Stands desc cx) (budget : Nat) :
    U.Kept desc cx (w.run budget (p.bind fun _ => .drain (.pure ())) cx).context := by
  rw [World.run_drain]
  have hroot := (runWithin_runnerKeeps hu (fun room cx => w.drainWithin budget room cx)
    cx.room).acts hp hm h
  refine hroot.andThen fun _ cx₁ _ hk => ?_
  exact (drainWithin_kept hu budget _ hk.stands).andThen fun _ cx₂ _ hk => .refl hk.stands

/-- From a context, a program leaves the condition true. What it returns satisfies `good`. -/
def ProgKeeps (U : ContextInvariant) (w : World) (desc : Entity → Label → Prog Unit) (p : Prog α)
    (cx : Context)
    (good : α → Context → Prop) : Prop :=
  ∀ deeper drain, (∀ run, deeper = some run → U.RunnerKeeps w desc run) → U.Stands desc cx →
    U.Kept desc cx (w.eval deeper drain p cx).context ∧
      ∀ a, (w.eval deeper drain p cx).outcome = .done a →
        good a (w.eval deeper drain p cx).context

namespace ProgKeeps

variable {p : Prog α} {good : α → Context → Prop}

theorem pure {a : α} (h : good a cx) : U.ProgKeeps w desc (.pure a) cx good :=
  fun _ _ _ hs => ⟨.refl hs, by rintro _ ⟨⟩; exact h⟩

theorem fail {e : Failure} : U.ProgKeeps w desc (.fail e) cx good :=
  fun _ _ _ hs => ⟨.refl hs, by rintro _ ⟨⟩⟩

theorem mono {good' : α → Context → Prop} (h : U.ProgKeeps w desc p cx good)
    (hg : ∀ a cx', good a cx' → good' a cx') : U.ProgKeeps w desc p cx good' := by
  intro deeper drain hdeeper hs
  obtain ⟨hk, hgood⟩ := h deeper drain hdeeper hs
  exact ⟨hk, fun a ha => hg a _ (hgood a ha)⟩

theorem bind {f : α → Prog β} {good' : β → Context → Prop} (h : U.ProgKeeps w desc p cx good)
    (hf : ∀ a cx₁, Frame cx cx₁ → good a cx₁ → U.ProgKeeps w desc (f a) cx₁ good') :
    U.ProgKeeps w desc (p.bind f) cx good' := by
  intro deeper drain hdeeper hs
  obtain ⟨hk, hgood⟩ := h deeper drain hdeeper hs
  rw [World.eval_bind]
  generalize w.eval deeper drain p cx = r at hk hgood
  obtain ⟨o, cx₁⟩ := r
  cases o with
  | failed | exhausted => exact ⟨hk, by rintro _ ⟨⟩⟩
  | done a =>
    obtain ⟨hk', hgood'⟩ := hf a cx₁ hk.frame (hgood a rfl) deeper drain hdeeper hk.stands
    exact ⟨hk.trans hk', hgood'⟩

theorem read {r : Except Failure β} {f : β → Prog α}
    (h : ∀ b, r = .ok b → U.ProgKeeps w desc (f b) cx good) :
    U.ProgKeeps w desc ((Prog.ofExcept r).bind f) cx good := by
  cases r with
  | ok b => exact h b rfl
  | error => exact fail

theorem assemblyFile {name : String} {k : Option String → Prog α}
    (h : ∀ file, U.ProgKeeps w desc (k file) cx good) :
    U.ProgKeeps w desc (.assemblyFile name k) cx good :=
  fun deeper drain hdeeper hs => h _ deeper drain hdeeper hs

theorem openGenerics {k : Bool → Prog α} (hg : U.holds cx → U.holds (cx.openGenerics l))
    (h : ∀ new, U.ProgKeeps w desc (k new) (cx.openGenerics l) good) :
    U.ProgKeeps w desc (.openGenerics l k) cx good := by
  intro deeper drain hdeeper hs
  have hframe := (Act.opens l).frame cx
  have hopened : U.Stands desc (cx.openGenerics l) :=
    ⟨hg hs.holds, hs.waits.along hframe.events rfl⟩
  obtain ⟨hk, hgood⟩ := h (!cx.generics.contains l) deeper drain hdeeper hopened
  exact ⟨.trans ⟨hopened, hframe⟩ hk, hgood⟩

theorem collect {R : Context → β → α → Prop} {items : List β} {body : β → Prog α}
    (hlast : ∀ {cx cx' b a}, R cx b a → cx.events <+: cx'.events → R cx' b a)
    (h : ∀ b ∈ items, ∀ cx₁, U.ProgKeeps w desc (body b) cx₁ fun a cx' => R cx' b a) :
    U.ProgKeeps w desc (Prog.collect items body) cx
      fun as cx' => List.Forall₂ (R cx') items as := by
  induction items generalizing cx with
  | nil => exact pure .nil
  | cons b items ih =>
    refine (h b List.mem_cons_self cx).bind fun a cx₁ _ ha => ?_
    refine (ih fun b hb => h b (List.mem_cons_of_mem _ hb)).bind fun as cx₂ hf has => pure ?_
    exact .cons (hlast ha hf.events) has

variable (hu : U.EngineKeeps w desc)

include hu

theorem acts (hp : p.Acts may) (hm : U.Permits cx may) :
    U.ProgKeeps w desc p cx fun _ _ => True :=
  fun _ _ hdeeper hs => ⟨eval_acts hu hdeeper hp hm hs, fun _ _ => trivial⟩

/-- An entity comes out of its cache or out of a creation, and the invariant is kept either way. -/
theorem entity (recipe : Recipe) : U.ProgKeeps w desc (.entity recipe) cx (U.Returns w recipe) :=
  fun _ _ hdeeper hs => eval_entity hu hdeeper hs

end ProgKeeps

end ContextInvariant

end TrapFacts
