import TrapFacts.Proofs.Engine.Queue

/-! In which guards descriptions begin, and when a missing guard is complained about. -/

namespace TrapFacts

variable {w : World} {site : Site} {due : Option Due} {cx cx₁ cx' : Context} {e : Event}
  {en : Entity} {l : Label} {slot : Slot} {past later : List Moment} {now : Moment}

namespace Entity

/-- Whether an entity is described in the guards that are open where it is created. -/
def staysInside (en : Entity) : Prop :=
  en.behavior = .needsScope ∨ en.behavior = .optionalScope

theorem not_staysInside {en : Entity} :
    ¬ en.staysInside ↔ en.behavior = .noScope ∨ en.behavior = .pushesScope := by
  unfold staysInside
  cases en.behavior <;> simp

/-- Whether an entity is missing a guard when it is created. -/
def MissesGuard (en : Entity) (guards : List Key) : Prop :=
  en.behavior = .needsScope ∧ en.needsPopulation = true ∧ guards = []

instance (en : Entity) (guards : List Key) : Decidable (en.MissesGuard guards) :=
  inferInstanceAs (Decidable (_ ∧ _ ∧ _))

end Entity

/-- The moment at which an entity got its label. -/
def Moment.Creates (now : Moment) (en : Entity) (l : Label) : Prop :=
  ∃ slot, now.event = .created slot ⟨l, en⟩

/-- The guards in which a description begins. -/
structure Begins (w : World) (site : Site) (cx : Context) (past : List Moment) (now : Moment)
    (en : Entity) (l : Label) : Prop where
  assembly : w.scope.isAssembly = true → now.guards = []
  noScope : en.behavior = .noScope → now.guards = []
  pushesScope : en.behavior = .pushesScope → w.scope.isAssembly = false →
    ∃ place, site cx en.reportingLocation? place ∧ now.guards = [.label l (.ofLabel place)]
  created : ∃ first ∈ past, first.Creates en l ∧ (en.staysInside → now.guards = first.guards)

/-- The complaint that is due at a moment, under the label of its entity: the moment is the creation
of an entity that misses a guard. -/
def Moment.complaint? (m : Model) (now : Moment) : Option (Label × Message) :=
  match now.event with
  | .created _ c =>
    if c.entity.MissesGuard now.guards then some (c.label, m.complaint c.entity) else none
  | _ => none

/-- The report that the description of an entity failed, once it had begun or for want of a place
for the entity's own guard. -/
structure Reports (w : World) (past : List Moment) (message : Message) (en : Entity) (l : Label)
    (e : Failure) : Prop where
  created : ∃ first ∈ past, first.Creates en l
  begun : .populating en l ∈ past.map Moment.event ∨ en.behavior = .pushesScope
  recoverable : e.isFatal = false
  message : message = w.model.failureMessage e none en.symbol?

/-- What guards mean to a moment. -/
def Lawful (w : World) (site : Site) (cx : Context) (past : List Moment) (now : Moment)
    (later : List Moment) : Prop :=
  match now.event with
  | .populating en l => Begins w site cx past now en l
  | .created _ c => c.entity.MissesGuard now.guards →
      [.sent (w.model.complaint c.entity) (some (.missingGuard c.label))] <+:
        later.map Moment.event
  | .sent message (some (.failure l)) => ∃ en e, Reports w past message en l e
  | _ => True

namespace Event

/-- The complaint that an event sent, under the label of its entity. -/
def complaint? : Event → Option (Label × Message)
  | .sent message (some (.missingGuard l)) => some (l, message)
  | _ => none

/-- An event that guards mean nothing to. -/
def Unaffected : Event → Prop
  | .populating _ _ => False
  | .created _ _ => False
  | .sent _ (some _) => False
  | _ => True

theorem Unaffected.complaint? (h : e.Unaffected) : e.complaint? = none := by
  unfold Event.complaint?
  split
  · exact h.elim
  · rfl

end Event

/-- Moments with just the complaints that are due at them. -/
def Complete (m : Model) (ms : List Moment) : Prop :=
  (ms.map Moment.event).filterMap Event.complaint? = ms.filterMap (Moment.complaint? m)

namespace Complete

variable {m : Model} {ms ms' : List Moment}

theorem append (h : Complete m ms) (h' : Complete m ms') : Complete m (ms ++ ms') := by
  unfold Complete at *
  rw [List.map_append, List.filterMap_append, List.filterMap_append, h, h']

/-- At moments that create nothing no complaint is due. -/
theorem of_none
    (h : ∀ now ∈ ms, now.event.complaint? = none ∧ ∀ slot c, now.event ≠ .created slot c) :
    Complete m ms := by
  refine Eq.trans (List.filterMap_eq_nil_iff.2 fun e he => ?_)
    (List.filterMap_eq_nil_iff.2 fun now hnow => ?_).symm
  · obtain ⟨now, hnow, rfl⟩ := List.mem_map.1 he
    exact (h now hnow).1
  · unfold Moment.complaint?
    split
    · next he => exact absurd he ((h now hnow).2 _ _)
    · rfl

theorem of_unaffected (h : ∀ now ∈ ms, now.event.Unaffected) : Complete m ms := by
  refine of_none fun now hnow => ⟨(h now hnow).complaint?, fun slot c he => ?_⟩
  have hcreated := h now hnow
  rw [he] at hcreated
  exact hcreated

/-- A creation and what is said about it at once. -/
theorem created {now : Moment} {c : Created} {sent : List Moment}
    (he : now.event = .created slot c)
    (ht : sent.map Moment.event = if c.entity.MissesGuard now.guards then
      [.sent (m.complaint c.entity) (some (.missingGuard c.label))] else []) :
    Complete m (now :: sent) := by
  have hdue : now.complaint? m =
      if c.entity.MissesGuard now.guards then some (c.label, m.complaint c.entity) else none := by
    simp only [Moment.complaint?, he]
  unfold Complete
  rw [List.map_cons, he, List.filterMap_cons_none rfl, ht, List.filterMap_cons, hdue]
  split
  · next hmisses =>
    rw [if_pos hmisses] at ht
    obtain ⟨now', rfl, he'⟩ := List.map_eq_singleton_iff.1 ht
    have hlast : now'.complaint? m = none := by simp only [Moment.complaint?, he']
    simp [Event.complaint?, hlast]
  · next hmisses =>
    rw [if_neg hmisses] at ht
    rw [List.map_eq_nil_iff.1 ht]
    rfl

end Complete

theorem Lawful.of_unaffected (h : now.event.Unaffected) : Lawful w site cx past now later := by
  unfold Lawful
  split
  · next he => simp [he, Event.Unaffected] at h
  · next he => simp [he, Event.Unaffected] at h
  · next he => simp [he, Event.Unaffected] at h
  · trivial

/-- The last thing in an introduction is the creation. -/
theorem Context.introduce_factsAbout (cx : Context) (slot : Slot) (en : Entity) :
    ∃ said, (cx.introduce slot en).2.moments =
        cx.moments ++ (said ++ [cx.moment (.created slot ⟨cx.nextLabel, en⟩)]) ∧
      ∀ now ∈ said, now.event.Unaffected := by
  refine ⟨(cx.collision en.key.render ++ [Event.wrote (.define cx.nextLabel en.key)]).map cx.moment,
    by simp, fun now hnow => ?_⟩
  obtain ⟨e, he, rfl⟩ := List.mem_map.1 hnow
  rcases List.mem_append.1 he with he | he
  · obtain ⟨message, rfl⟩ := cx.sent_of_mem_collision e he
    trivial
  · rw [List.mem_singleton.1 he]
    trivial

def Site.Lasts (site : Site) : Prop :=
  ∀ ⦃cx cx' place l⦄, site cx place l → cx.events <+: cx'.events → site cx' place l

theorem Lawful.mono (hsite : site.Lasts) (h : Lawful w site cx past now later)
    (he : cx.events <+: cx'.events) : Lawful w site cx' past now later := by
  unfold Lawful at h ⊢
  split at h
  · refine { h with pushesScope := fun hb hs => ?_ }
    obtain ⟨place, hplace, hguards⟩ := h.pushesScope hb hs
    exact ⟨place, hsite hplace he, hguards⟩
  · exact h
  · exact h
  · trivial

theorem Lawful.append (h : Lawful w site cx past now later) (ms : List Moment) :
    Lawful w site cx past now (later ++ ms) := by
  unfold Lawful at h ⊢
  split at h
  · exact h
  · rw [List.map_append]
    exact fun hm => (h hm).trans (List.prefix_append _ _)
  · exact h
  · trivial

/-- An entity that is to be described, in the guards that are open. -/
structure Ready (cx : Context) (en : Entity) (l : Label) : Prop where
  created : ∃ first ∈ cx.moments, first.Creates en l ∧ (en.staysInside → first.guards = cx.guards)
  bare : ¬ en.staysInside → cx.guards = []

theorem Ready.mono (h : Ready cx en l) (hp : Passage cx cx') : Ready cx' en l := by
  obtain ⟨first, hfirst, hc, hg⟩ := h.created
  refine ⟨⟨first, hp.moments.subset hfirst, hc, fun hb => ?_⟩, fun hb => ?_⟩
  · rw [hg hb, hp.guards]
  · rw [hp.guards]
    exact h.bare hb

/-- The journal of a context agrees with the guards, and what waits for its description may begin
outside of guards only. -/
structure Disposed (w : World) (site : Site) (cx : Context) : Prop where
  lawful : Throughout (Lawful w site cx) cx.moments
  complete : Complete w.model cx.moments
  waiting : ∀ a ∈ cx.queue, ∀ en l body, a.work = .population en l body →
    ¬ en.staysInside ∧ ∃ first ∈ cx.moments, first.Creates en l

namespace Disposed

theorem fresh (x : Extractor) : Disposed w site { extractor := x } :=
  ⟨.nil, rfl, by simp⟩

theorem append (hsite : site.Lasts) {ms : List Moment} (h : Disposed w site cx)
    (hm : cx'.moments = cx.moments ++ ms) (hq : ∀ a ∈ cx'.queue, a ∈ cx.queue)
    (hc : Complete w.model ms)
    (hl : Throughout (fun past now later => Lawful w site cx' (cx.moments ++ past) now later) ms) :
    Disposed w site cx' where
  complete := hm ▸ h.complete.append hc
  lawful := by
    have he : cx.events <+: cx'.events := List.IsPrefix.map _ ⟨ms, hm.symm⟩
    have hbefore : Throughout (Lawful w site cx') cx.moments := fun past now later hsplit =>
      (h.lawful past now later hsplit).mono hsite he
    rw [hm]
    exact hbefore.append (fun _ _ _ hn => hn.append ms) hl
  waiting a ha en l body hw := by
    obtain ⟨hb, first, hfirst, hc⟩ := h.waiting a (hq a ha) en l body hw
    exact ⟨hb, first, hm ▸ List.mem_append_left _ hfirst, hc⟩

theorem event (hsite : site.Lasts) (h : Disposed w site cx)
    (hm : cx'.moments = cx.moments ++ [cx'.moment e]) (he : e.Unaffected)
    (hq : cx'.queue = cx.queue) : Disposed w site cx' :=
  h.append hsite hm (fun _ ha => hq ▸ ha) (.of_unaffected (List.forall_mem_singleton.2 he))
    (.cons (.of_unaffected he) .nil)

theorem still (hsite : site.Lasts) (h : Disposed w site cx) (hm : cx'.moments = cx.moments)
    (hq : cx'.queue = cx.queue) : Disposed w site cx' :=
  h.append hsite (by rw [hm, List.append_nil]) (fun _ ha => hq ▸ ha) (.of_unaffected (by simp)) .nil

theorem log (hsite : site.Lasts) (h : Disposed w site cx) (he : e.Unaffected) :
    Disposed w site (cx.log e) :=
  h.event hsite (cx.moments_log e) he rfl

theorem openGuard (hsite : site.Lasts) (h : Disposed w site cx) (key : Key) :
    Disposed w site (cx.openGuard key) :=
  h.event hsite (cx.moments_openGuard key) trivial rfl

theorem closeGuard (hsite : site.Lasts) (h : Disposed w site cx) : Disposed w site cx.closeGuard :=
  h.event hsite cx.moments_closeGuard trivial rfl

theorem take (hsite : site.Lasts) (h : Disposed w site cx) {a : Pending} {rest : List Pending}
    (hq : cx.queue = a :: rest) : Disposed w site (cx.take a rest) :=
  h.append hsite (cx.moments_take a rest) (fun _ hb => hq ▸ List.mem_cons_of_mem _ hb) rfl
    (.cons (.of_unaffected trivial) .nil)

theorem enqueue (hsite : site.Lasts) (h : Disposed w site cx) {work : Work}
    (hw : ∀ en l body, work = .population en l body →
      ¬ en.staysInside ∧ ∃ first ∈ cx.moments, first.Creates en l) :
    Disposed w site (cx.enqueue work) := by
  have hm := cx.moments_enqueue work
  have hqueue : (cx.enqueue work).queue = cx.queue ++ [⟨cx.deferred, work⟩] := rfl
  refine ⟨?_, hm ▸ h.complete.append rfl, fun a ha en l body hwork => ?_⟩
  · have he : cx.events <+: (cx.enqueue work).events := ⟨_, (cx.events_enqueue work).symm⟩
    have hbefore : Throughout (Lawful w site (cx.enqueue work)) cx.moments :=
      fun past now later hsplit => (h.lawful past now later hsplit).mono hsite he
    rw [hm]
    exact hbefore.snoc (fun _ _ _ hn => hn.append _) (.of_unaffected trivial)
  · have hold : ¬ en.staysInside ∧ ∃ first ∈ cx.moments, first.Creates en l := by
      rw [hqueue, List.mem_append, List.mem_singleton] at ha
      rcases ha with ha | rfl
      · exact h.waiting a ha en l body hwork
      · exact hw en l body hwork
    obtain ⟨hb, first, hfirst, hc⟩ := hold
    exact ⟨hb, first, hm ▸ List.mem_append_left _ hfirst, hc⟩

/-- Deeds begin no descriptions. -/
theorem deed (hsite : site.Lasts) (h : Disposed w site cx) (hd : Deed cx cx') :
    Disposed w site cx' := by
  cases hd with
  | fresh | define => exact h.event hsite (cx.allocate.moments_write _) trivial rfl
  | emit => exact h.event hsite (cx.moments_write _) trivial rfl
  | missingType => exact h.event hsite (cx.moments_missingType _) trivial rfl
  | setAssemblyFile | openGenerics => exact h.still hsite rfl rfl
  | note => exact h.log hsite trivial
  | later => exact h.enqueue hsite (by rintro _ _ _ ⟨⟩)

/-- A failure is reported about an entity that was created. -/
theorem report (hsite : site.Lasts) (h : Disposed w site cx) {e : Failure}
    (hc : ∃ first ∈ cx.moments, first.Creates en l)
    (hb : .populating en l ∈ cx.events ∨ en.behavior = .pushesScope) (he : e.isFatal = false) :
    Disposed w site (cx.send (w.model.failureMessage e none en.symbol?) (some (.failure l))) := by
  obtain ⟨first, hfirst, hcreates⟩ := hc
  refine h.append hsite (cx.moments_send _ _) (fun _ ha => ha) rfl (.cons ?_ .nil)
  rw [List.append_nil]
  exact ⟨en, e, ⟨first, hfirst, hcreates⟩, hb, he, rfl⟩

/-- A description begins in place if its entity is ready for it and opens no guard of its own. -/
theorem populating (hsite : site.Lasts) (h : Disposed w site cx) (hr : Ready cx en l)
    (hb : en.behavior ≠ .pushesScope ∨ w.scope.isAssembly = true)
    (hc : w.scope.isAssembly = true → cx.guards = []) : Disposed w site (cx.populating en l) := by
  obtain ⟨first, hfirst, hcreates, hguards⟩ := hr.created
  refine h.append hsite (cx.moments_populating en l) (fun _ ha => ha) rfl (.cons ?_ .nil)
  refine ⟨hc, fun hno => hr.bare ?_, fun hp hs => ?_, first, by simpa using hfirst, hcreates, ?_⟩
  · simp [Entity.staysInside, hno]
  · simp [hp, hs] at hb
  · exact fun hi => (hguards hi).symm

/-- An entity with a guard of its own is described in that one alone. -/
theorem populatingGuarded (hsite : site.Lasts) {place : Label} (h : Disposed w site cx)
    (hr : Ready cx en l) (hb : en.behavior = .pushesScope) (hs : w.scope.isAssembly = false)
    (hplace : site cx en.reportingLocation? place) :
    Disposed w site ((cx.openGuard (.label l (.ofLabel place))).populating en l) := by
  obtain ⟨first, hfirst, hcreates, _⟩ := hr.created
  have hi : ¬ en.staysInside := by simp [Entity.staysInside, hb]
  have hopened := h.openGuard hsite (.label l (.ofLabel place))
  refine hopened.append hsite (Context.moments_populating _ en l) (fun _ ha => ha) rfl
    (.cons ?_ .nil)
  refine ⟨by simp [hs], by simp [hb], fun _ _ => ⟨place, hsite hplace ?_, ?_⟩, first, ?_,
    hcreates, fun h => absurd h hi⟩
  · exact ⟨_, by
      rw [Context.events_populating, Context.events_openGuard, List.append_assoc]⟩
  · exact congrArg (_ :: ·) (hr.bare hi)
  · simp [Context.moments_openGuard, hfirst]

/-- An introduction, and the complaint if a guard is missing. -/
theorem introduced (hsite : site.Lasts) {sent : List Moment} (h : Disposed w site cx)
    (hm : cx'.moments = (cx.introduce slot en).2.moments ++ sent) (hq : cx'.queue = cx.queue)
    (ht : sent.map Moment.event = if en.MissesGuard cx.guards then
      [.sent (w.model.complaint en) (some (.missingGuard cx.nextLabel))] else []) :
    Disposed w site cx' := by
  obtain ⟨said, hintroduce, hsaid⟩ := cx.introduce_factsAbout slot en
  have hmoments : cx'.moments =
      cx.moments ++ (said ++ cx.moment (.created slot ⟨cx.nextLabel, en⟩) :: sent) := by
    rw [hm, hintroduce]
    simp
  refine h.append hsite hmoments (fun _ ha => hq ▸ ha) ((Complete.of_unaffected hsaid).append
    (.created rfl ht)) (Throughout.append ?_ (fun _ _ _ hn => hn.append _) (.cons ?_ ?_))
  · exact fun past now later hsplit => .of_unaffected (hsaid now (by simp [hsplit]))
  · intro hmisses
    exact (ht.trans (if_pos hmisses)) ▸ List.prefix_rfl
  · intro past now later hsplit
    have hnow : now.event ∈ sent.map Moment.event := List.mem_map_of_mem (by simp [hsplit])
    rw [ht] at hnow
    split at hnow
    · rw [Lawful, List.mem_singleton.1 hnow]
      trivial
    · cases hnow

theorem introduce (hsite : site.Lasts) (h : Disposed w site cx) (slot : Slot)
    (hn : ¬ en.MissesGuard cx.guards) : Disposed w site (cx.introduce slot en).2 := by
  have hm : (cx.introduce slot en).2.moments = (cx.introduce slot en).2.moments ++ [] := by simp
  exact h.introduced hsite hm (cx.queue_introduce slot en) (by rw [if_neg hn]; rfl)

theorem announce (hsite : site.Lasts) (h : Disposed w site cx) (slot : Slot)
    (hp : en.needsPopulation = true) : Disposed w site (w.announce slot en cx) := by
  unfold World.announce World.complain
  split
  · next hmissing =>
    obtain ⟨hg, hb⟩ := World.plan_missingGuard.1 hmissing
    have hmisses : en.MissesGuard cx.guards := ⟨hb, hp, by simpa using hg⟩
    exact h.introduced hsite (Context.moments_send _ _ _) (cx.queue_introduce slot en)
      (by rw [if_pos hmisses]; rfl)
  · next hmissing =>
    refine h.introduce hsite slot fun hm => hmissing (World.plan_missingGuard.2 ⟨?_, hm.1⟩)
    simp [hm.2.2]

/-- Who is described was created before. -/
theorem created_of_populating (h : Disposed w site cx) (hp : .populating en l ∈ cx.events) :
    ∃ first ∈ cx.moments, first.Creates en l := by
  obtain ⟨now, hnow, he⟩ := List.mem_map.1 hp
  obtain ⟨past, later, hsplit⟩ := List.append_of_mem hnow
  have hbegins := h.lawful past now later hsplit
  unfold Lawful at hbegins
  rw [he] at hbegins
  obtain ⟨first, hfirst, hcreates, _⟩ := hbegins.created
  exact ⟨first, by simp [hsplit, hfirst], hcreates⟩

end Disposed

/-- An entity that was announced was created in the guards that are open still. -/
theorem creates_announce (w : World) (cx : Context) (slot : Slot) (en : Entity) :
    ∃ first ∈ (w.announce slot en cx).moments, first.Creates en cx.nextLabel ∧
      first.guards = cx.guards := by
  obtain ⟨said, hintroduce, _⟩ := cx.introduce_factsAbout slot en
  have hintroduced : cx.moment (.created slot ⟨cx.nextLabel, en⟩) ∈
      (cx.introduce slot en).2.moments := by
    rw [hintroduce]
    simp
  refine ⟨cx.moment (.created slot ⟨cx.nextLabel, en⟩), ?_, ⟨slot, rfl⟩, rfl⟩
  unfold World.announce World.complain
  split
  · rw [Context.moments_send]
    exact List.mem_append_left _ hintroduced
  · exact hintroduced

theorem ready_announce (hd : (en.behavior.plan (!cx.guards.isEmpty)).deferred = false) :
    Ready (w.announce slot en cx) en cx.nextLabel := by
  have hguards : (w.announce slot en cx).guards = cx.guards := (Passage.announce cx slot en).guards
  obtain ⟨first, hfirst, hcreates, hopen⟩ := creates_announce w cx slot en
  refine ⟨⟨first, hfirst, hcreates, fun _ => ?_⟩, fun hi => ?_⟩
  · rw [hopen, hguards]
  · rw [hguards]
    by_cases hbare : cx.guards = []
    · exact hbare
    · have hopen : (!cx.guards.isEmpty) = true := by simpa using hbare
      have hdefer := World.plan_deferred.2 ⟨hopen, Entity.not_staysInside.1 hi⟩
      rw [hd] at hdefer
      cases hdefer

/-- A course keeps the journal in agreement with the guards. -/
theorem Course.disposed (hsite : site.Lasts) (h : Course w site due cx cx') (hc : Clear w cx')
    (hd : Disposed w site cx) (hr : ∀ en l, due = some (en, l) → Ready cx en l) :
    Disposed w site cx' := by
  induction h with
  | refl => exact hd
  | trans h h' ih ih' =>
    refine ih' hc (ih (hc.mono h'.passage.moments) hd (by simp)) fun en l hdue => ?_
    exact (hr en l hdue).mono h.passage
  | deed h => exact hd.deed hsite h
  | sent => exact hd.event hsite (Context.moments_send _ _ _) trivial rfl
  | limit | served => exact hd.log hsite trivial
  | guarded hs h ih =>
    have hinner := ih (hc.mono ⟨_, (Context.moments_closeGuard _).symm⟩) (hd.openGuard hsite _)
    exact (hinner (by simp)).closeGuard hsite
  | @nested slot _ _ h ih =>
    have hentered := hd.event hsite (Context.moments_enter _ slot) trivial rfl
    exact (ih hc hentered (by simp)).still hsite rfl rfl
  | bare _ slot hp => exact hd.introduce hsite slot fun hm => by simp [hm.2.1] at hp
  | prompt hp hdefer h ih =>
    refine ih hc (hd.announce hsite _ hp) ?_
    rintro _ _ ⟨⟩
    exact ready_announce hdefer
  | deferred slot body hp hdefer =>
    refine (hd.announce hsite slot hp).enqueue hsite ?_
    rintro _ _ _ ⟨⟩
    obtain ⟨first, hfirst, hcreates, _⟩ := creates_announce w _ slot _
    exact ⟨Entity.not_staysInside.2 (World.plan_deferred.1 hdefer).2, first, hfirst, hcreates⟩
  | @described en l cx _ hb h ih =>
    have hready := hr _ _ rfl
    refine ih hc (hd.populating hsite hready hb fun hs => ?_) (by simp)
    exact (hc.mono h.passage.moments).2 hs (cx.moment (.populating en l))
      (by simp [Context.moments_populating])
  | describedGuarded hb hs hplace h ih =>
    have hready := hr _ _ rfl
    have hinner := ih (hc.mono ⟨_, (Context.moments_closeGuard _).symm⟩)
      (hd.populatingGuarded hsite hready hb hs hplace)
    exact (hinner (by simp)).closeGuard hsite
  | stopped h ih => exact ih hc hd (by simp)
  | excused _ hb he =>
    obtain ⟨first, hfirst, hcreates, _⟩ := (hr _ _ rfl).created
    exact hd.report hsite ⟨first, hfirst, hcreates⟩ (.inr hb) he
  | reported hp he => exact hd.report hsite (hd.created_of_populating hp) (.inl hp) he
  | taken hq hg h ih =>
    exact ih hc ((hd.take hsite hq).log hsite trivial) (by simp)
  | @takenGuarded number key _ _ _ _ hq hs h ih =>
    have hopened := (hd.take hsite hq).openGuard hsite key
    have hinner := ih (hc.mono ⟨_, (Context.moments_closeGuard _).symm⟩)
      (hopened.log hsite trivial)
    exact (hinner (by simp)).closeGuard hsite
  | @resumed number en l body rest cx cx' hq h ih =>
    have hbare : cx.guards = [] := by
      refine (hc.mono h.passage.moments).1
        ((cx.take ⟨number, .population en l body⟩ rest).moment (.taken number)) ?_ number rfl
      simp [Context.moments_take]
    obtain ⟨hi, first, hfirst, hcreates⟩ := hd.waiting _ (hq ▸ List.mem_cons_self) en l body rfl
    refine ih hc ((hd.take hsite hq).log hsite trivial) ?_
    rintro _ _ ⟨⟩
    refine ⟨⟨first, ?_, hcreates, fun h => absurd h hi⟩, fun _ => hbare⟩
    simp [Context.moments_take, hfirst]

end TrapFacts
