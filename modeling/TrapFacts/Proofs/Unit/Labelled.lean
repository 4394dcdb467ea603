import TrapFacts.Proofs.Unit.Labels

/-! Whatever a unit writes mentions only labels that its trap introduced before. -/

namespace TrapFacts

variable {m : Model} {scope : Scope} {o : List Due} {b : Bool} {cx cx' : Context} {e : Event}
  {r : Record} {rs : List Record} {slot : Slot} {en : Entity} {l : Label}

/-- Records of which each mentions only labels that records before it introduced, and in its key
only labels that they defined. -/
def Scoped (rs : List Record) : Prop :=
  ∀ before r after, rs = before ++ r :: after →
    (∀ l ∈ r.keyLabels, ∃ key, .define l key ∈ before) ∧
    ∀ l ∈ r.argLabels, ∃ r' ∈ before, r'.introduced? = some l

/-- A record may follow that mentions only what was introduced. -/
theorem Scoped.snoc (h : Scoped rs) (hk : ∀ l ∈ r.keyLabels, ∃ key, .define l key ∈ rs)
    (ha : ∀ l ∈ r.argLabels, ∃ r' ∈ rs, r'.introduced? = some l) : Scoped (rs ++ [r]) := by
  intro before r' after hsplit
  rcases List.eq_nil_or_concat after with rfl | ⟨rest, last, rfl⟩
  · obtain ⟨rfl, hlast⟩ := List.append_inj' hsplit rfl
    cases hlast
    exact ⟨hk, ha⟩
  · rw [List.concat_eq_append, ← List.cons_append, ← List.append_assoc] at hsplit
    exact h before r' rest (List.append_inj' hsplit rfl).1

/-- A description of an entity of the model, of which all labels have keys. -/
structure Proper (m : Model) (cx : Context) (d : Due) : Prop where
  fits : m.Fits d.1
  labels : ∀ l ∈ d.1.labels, cx.Keyed l
  keyed : cx.Keyed d.2

theorem Proper.mono {d : Due} (h : Proper m cx d) (he : cx.events <+: cx'.events) :
    Proper m cx' d :=
  ⟨h.fits, fun l hl => (h.labels l hl).mono he, h.keyed.mono he⟩

/-- Labels that the caches hold or handed out have keys, what waits are descriptions of such
entities, and the trap mentions no label too early. -/
structure Labelled (m : Model) (scope : Scope) (cx : Context) : Prop where
  served : ∀ slot c, .served slot c ∈ cx.events → cx.Keyed c.label
  same : ∀ slot en c, cx.same? slot en = some c → cx.Keyed c.label
  queue : ∀ a ∈ cx.queue, ∃ en l, a.work = .population en l (facts m scope en l) ∧
    Proper m cx (en, l)
  mentions : Scoped cx.trap

theorem labelled_fresh (m : Model) (scope : Scope) (x : Extractor) :
    Labelled m scope { extractor := x } where
  served := by simp [Context.events, Context.moments]
  same slot _ _ := by cases slot <;> simp [Context.same?, Context.known?]
  queue := by simp
  mentions := by
    intro before r after h
    simp [Context.trap] at h

theorem Key.labels_append (k k' : Key) : (k ++ k').labels = k.labels ++ k'.labels := by
  change (k.append k').labels = _
  induction k with
  | nil => rfl
  | text _ _ ih | int _ _ ih => exact ih
  | label l _ ih => exact congrArg (l :: ·) ih
  | nest i _ _ ih => simp [Key.append, Key.labels, ih]

theorem Key.labels_join {sep : String} {ks : List Key} :
    (Key.join sep ks).labels = ks.flatMap Key.labels := by
  fun_induction Key.join sep ks with
  | case1 => rfl
  | case2 k => simp
  | case3 k ks _ ih => simp [Key.labels_append, Key.labels, ih]

/-- The key of an entity mentions no other labels than the entity does. -/
theorem Span.labels_key (s : Span) : s.key.labels = [] := by
  simp [Span.key, Key.labels_join, Span.numbers, Key.labels]

theorem NamedType.labels_key (t : NamedType) : t.key.labels ⊆ (Entity.namedType t).labels := by
  intro l hl
  unfold NamedType.key at hl
  split at hl
  · next hd =>
    simp [Key.labels, Key.labels_append, Key.labels_join, Key.literal, Key.ofLabel,
      List.flatMap_map] at hl
    simp only [Entity.labels, hd, List.mem_append, Option.mem_toList,
      Option.some.injEq]
    rcases hl with rfl | hl
    · exact .inl (.inr rfl)
    · exact .inr hl
  · next hp =>
    obtain rfl : l = _ := by simpa [Key.labels, Key.literal] using hl
    rcases Option.or_eq_some_iff.1 hp with hc | ⟨_, hs⟩
    · simp [Entity.labels, hc]
    · simp [Entity.labels, hs]
  · simp [Key.labels, Key.literal] at hl

/-- A key mentions only labels of its entity. -/
theorem Entity.labels_key (h : m.Fits en) : en.key.labels ⊆ en.labels := by
  cases en with
  | custom => cases h
  | namedType t => exact t.labels_key
  | location f span =>
    cases span <;> simp [Entity.key, Key.labels, Entity.labels, Key.literal, Span.labels_key]
  | space symbol name parent =>
    cases parent with
    | none =>
      simp only [Entity.key]
      split <;> simp [Key.labels, Key.literal]
    | some parent => simp [Entity.key, Key.labels, Key.literal, Entity.labels]
  | method f =>
    intro l hl
    simp [Entity.key, Method.key, Key.labels, Key.labels_append, Key.labels_join, Key.literal,
      Key.ofLabel, List.flatMap_map] at hl
    rcases hl with rfl | hl
    · simp [Entity.labels]
    · simp [Entity.labels, hl]
  | _ => simp [Entity.key, Key.labels, Entity.labels, Key.literal]

namespace Labelled

theorem event (h : Labelled m scope cx) (he : cx'.events = cx.events ++ [e])
    (hs : cx'.same? = cx.same?) (hq : cx'.queue = cx.queue)
    (hk : ∀ r, e = .wrote r → ∀ l ∈ r.keyLabels, cx.Keyed l)
    (ha : ∀ r, e = .wrote r → ∀ l ∈ r.argLabels, cx.Known l)
    (hv : ∀ slot c, e = .served slot c → cx.Keyed c.label) : Labelled m scope cx' := by
  have hmono : cx.events <+: cx'.events := ⟨_, he.symm⟩
  refine ⟨fun slot c hm => ?_, fun slot en c hm => (h.same slot en c (hs ▸ hm)).mono hmono,
    fun a ham => ?_, ?_⟩
  · rw [he, List.mem_append, List.mem_singleton] at hm
    rcases hm with hm | hm
    · exact (h.served slot c hm).mono hmono
    · exact (hv slot c hm.symm).mono hmono
  · obtain ⟨en, l, hw, hp⟩ := h.queue a (hq ▸ ham)
    exact ⟨en, l, hw, hp.mono hmono⟩
  · rw [Context.trap_event he]
    cases e with
    | wrote r => exact h.mentions.snoc (hk r rfl) (ha r rfl)
    | _ => simpa [Event.record?] using h.mentions

/-- A change of what no event tells of. -/
theorem still (h : Labelled m scope cx) (he : cx'.events = cx.events)
    (hs : cx'.same? = cx.same?) (hq : cx'.queue = cx.queue) : Labelled m scope cx' := by
  have hmono : cx.events <+: cx'.events := ⟨[], by simp [he]⟩
  refine ⟨fun slot c hm => (h.served slot c (he ▸ hm)).mono hmono,
    fun slot en c hm => (h.same slot en c (hs ▸ hm)).mono hmono, fun a ham => ?_, ?_⟩
  · obtain ⟨en, l, hw, hp⟩ := h.queue a (hq ▸ ham)
    exact ⟨en, l, hw, hp.mono hmono⟩
  · rw [Context.trap_eq, he, ← Context.trap_eq]
    exact h.mentions

/-- An event that writes no record and hands out no label. -/
theorem quiet (h : Labelled m scope cx) (he : cx'.events = cx.events ++ [e])
    (hs : cx'.same? = cx.same?) (hq : cx'.queue = cx.queue) (hr : e.record? = none)
    (hv : ∀ slot c, e ≠ .served slot c) : Labelled m scope cx' := by
  refine h.event he hs hq ?_ ?_ fun slot c hc => absurd hc (hv slot c)
  · rintro r rfl
    cases hr
  · rintro r rfl
    cases hr

theorem log (h : Labelled m scope cx) (hr : e.record? = none) (hv : ∀ slot c, e ≠ .served slot c) :
    Labelled m scope (cx.log e) :=
  h.quiet (cx.events_log e) rfl rfl hr hv

theorem send (h : Labelled m scope cx) (message : Message) (about : Option Concern) :
    Labelled m scope (cx.send message about) :=
  h.quiet (cx.events_send message about) rfl rfl rfl (by simp)

/-- A fact about labels that the trap knows. -/
theorem fact {t : Tuple} (h : Labelled m scope cx)
    (ha : ∀ l ∈ t.args.filterMap Value.label?, cx.Known l) :
    Labelled m scope (cx.write (.tuple t)) := by
  refine h.event (cx.events_write _) rfl rfl ?_ ?_ (by simp)
  · rintro _ ⟨⟩
    simp [Record.keyLabels]
  · rintro _ ⟨⟩
    exact ha

theorem ownStep (h : Labelled m scope cx) (ht : OwnStep cx cx') : Labelled m scope cx' := by
  cases ht with
  | fact _ ha => exact h.fact fun l hl => (ha l hl).known
  | missingType name =>
    exact h.quiet (cx.events_missingType name) rfl rfl rfl (by simp)
  | openGenerics l => exact h.still (cx.events_openGenerics l) rfl rfl
  | fresh _ ha =>
    have hfresh : Labelled m scope (cx.allocate.write (.fresh cx.nextLabel)) := by
      refine h.event (cx.allocate.events_write _) rfl rfl ?_ ?_ (by simp)
      · rintro _ ⟨⟩
        simp [Record.keyLabels]
      · rintro _ ⟨⟩
        simp [Record.argLabels]
    have hknown : (cx.allocate.write (.fresh cx.nextLabel)).Known cx.nextLabel := by
      refine ⟨.fresh cx.nextLabel, ?_, rfl⟩
      simp [Context.trap_eq, Event.record?]
    refine hfresh.fact fun l hl => ?_
    simp only [List.filterMap_cons, Value.label?, List.mem_cons] at hl
    rcases hl with rfl | hl
    · exact hknown
    · exact (ha l hl).known.mono (Frame.deed (.fresh cx)).events

theorem openGuard {key : Key} (h : Labelled m scope cx) (hk : ∀ l ∈ key.labels, cx.Keyed l) :
    Labelled m scope (cx.openGuard key) := by
  refine h.event (cx.events_openGuard key) rfl rfl ?_ ?_ (by simp)
  · rintro _ ⟨⟩
    exact hk
  · rintro _ ⟨⟩
    simp [Record.argLabels]

/-- The guard of a description: the label of its entity and that of its place. -/
theorem openOwn {place : Created} (h : Labelled m scope cx) (hl : cx.Keyed l)
    (hp : Event.served slot place ∈ cx.events) :
    Labelled m scope (cx.openGuard (.label l (.ofLabel place.label))) := by
  refine h.openGuard fun l' hl' => ?_
  simp only [Key.ofLabel, Key.labels, List.mem_cons, List.not_mem_nil, or_false] at hl'
  rcases hl' with rfl | rfl
  · exact hl
  · exact h.served _ _ hp

theorem closeGuard (h : Labelled m scope cx) : Labelled m scope cx.closeGuard := by
  refine h.event cx.events_closeGuard rfl rfl ?_ ?_ (by simp)
  · rintro _ ⟨⟩
    simp [Record.keyLabels]
  · rintro _ ⟨⟩
    simp [Record.argLabels]

/-- A new entity whose labels have keys gets one as well. -/
theorem introduce (h : Labelled m scope cx) (hs : cx.same? slot en = none) (hfits : m.Fits en)
    (hl : ∀ l ∈ en.labels, cx.Keyed l) : Labelled m scope (cx.introduce slot en).2 where
  served slot' c hm := by
    refine (h.served slot' c ?_).mono (Frame.introduce hs).events
    rcases Context.mem_events_introduce hm with hm | ⟨message, hm⟩ | hm | hm
    · exact hm
    · cases hm
    · cases hm
    · cases hm
  same slot' en' c hm := by
    rw [Context.same?_introduce] at hm
    split at hm
    · obtain rfl := Option.some.inj hm
      exact ⟨en.key, by simp [Context.trap_introduce]⟩
    · exact (h.same slot' en' c hm).mono (Frame.introduce hs).events
  queue a ham := by
    rw [Context.queue_introduce] at ham
    obtain ⟨en', l, hw, hp⟩ := h.queue a ham
    exact ⟨en', l, hw, hp.mono (Frame.introduce hs).events⟩
  mentions := by
    rw [Context.trap_introduce]
    refine h.mentions.snoc (fun l hl' => hl l (Entity.labels_key hfits hl')) ?_
    simp [Record.argLabels]

theorem proper_introduce (hs : cx.same? slot en = none) (hfits : m.Fits en)
    (hl : ∀ l ∈ en.labels, cx.Keyed l) :
    ∀ d ∈ (cx.introduce slot en).1.dues, Proper m (cx.introduce slot en).2 d := by
  intro d hd
  unfold Created.dues at hd
  split at hd
  · obtain rfl := List.mem_singleton.1 hd
    refine ⟨hfits, fun l hl' => (hl l hl').mono (Frame.introduce hs).events, en.key, ?_⟩
    rw [Context.trap_introduce]
    exact List.mem_append_right _ (List.mem_singleton_self _)
  · cases hd

theorem deferred (h : Labelled m scope cx) (hp : Proper m cx (en, l)) :
    Labelled m scope (cx.enqueue (.population en l (facts m scope en l))) := by
  let entry : Pending := { number := cx.deferred, work := .population en l (facts m scope en l) }
  let waiting : Context := { cx with queue := cx.queue ++ [entry] }
  have hwaiting : Labelled m scope waiting := by
    refine ⟨h.served, h.same, fun a ham => ?_, h.mentions⟩
    rcases List.mem_append.1 ham with ham | ham
    · obtain ⟨en', l', hw, hp'⟩ := h.queue a ham
      exact ⟨en', l', hw, hp'.mono List.prefix_rfl⟩
    · obtain rfl := List.mem_singleton.1 ham
      exact ⟨en, l, rfl, hp.mono List.prefix_rfl⟩
  exact hwaiting.quiet (cx.events_enqueue _) rfl rfl rfl (by simp)

/-- A description mentions its own label and those of its entity. -/
theorem describe (h : Labelled m scope cx) (hp : Proper m cx (en, l))
    (ho : Opening en l (cx.populating en l) cx') : Labelled m scope cx' := by
  obtain ⟨relation, args, _, ha, rfl⟩ := ho
  have hpopulating : Labelled m scope (cx.populating en l) :=
    h.quiet (cx.events_populating en l) rfl rfl rfl (by simp)
  refine hpopulating.fact fun l' hl' => Context.Known.mono ?_ (Frame.populating cx en l).events
  simp only [List.filterMap_cons, Value.label?, List.mem_cons] at hl'
  rcases hl' with rfl | hl'
  · exact hp.keyed.known
  · exact (hp.labels l' (ha l' hl')).known

theorem proper_dues {a : Pending} (h : Labelled m scope cx) (ha : a ∈ cx.queue) :
    ∀ d ∈ a.work.dues, Proper m cx d := by
  obtain ⟨en, l, hw, hp⟩ := h.queue a ha
  simpa [hw, Work.dues] using hp

/-- Work off the queue is about entities whose labels have keys. -/
theorem take {a : Pending} {rest : List Pending} (h : Labelled m scope cx)
    (hq : cx.queue = a :: rest) : Labelled m scope (cx.take a rest) := by
  let taken : Context := { cx with queue := rest }
  have htaken : Labelled m scope taken := by
    refine ⟨h.served, h.same, fun a' ham => ?_, h.mentions⟩
    obtain ⟨en, l, hw, hp⟩ := h.queue a' (hq ▸ List.mem_cons_of_mem a ham)
    exact ⟨en, l, hw, hp.mono List.prefix_rfl⟩
  exact htaken.quiet (cx.events_take a rest) rfl rfl rfl (by simp)

end Labelled

/-- The trails of a unit keep the labels in order. -/
theorem Trail.labelled (h : Trail (.ofModel m scope) (.ofModel m scope) o b cx cx')
    (hl : Labelled m scope cx) (ho : ∀ d ∈ o, Proper m cx d) : Labelled m scope cx' := by
  induction h with
  | refl => exact hl
  | trans h _ ih ih' =>
    exact ih' (ih hl fun d hd => ho d (List.mem_append_left _ hd)) fun d hd =>
      (ho d (List.mem_append_right _ hd)).mono h.frame.events
  | stop _ _ ih => exact ih hl (by simp)
  | caught hc => exact hc.elim
  | deed h => exact hl.ownStep h
  | sent | complaint | excused | reported => exact hl.send _ _
  | limit => exact hl.log rfl (by simp)
  | served hc =>
    refine hl.event (Context.events_log _ _) rfl rfl (by simp) (by simp) ?_
    rintro _ _ ⟨⟩
    exact hl.same _ _ _ hc
  | guarded _ hg => exact hg.elim
  | nested hk _ _ ih =>
    have hinner := ih (hl.quiet (Context.events_enter _ _) rfl rfl rfl (by simp)) (by simp)
    exact hinner.still (Context.events_leave _) rfl rfl
  | introduced hn he _ ih =>
    exact ih (hl.introduce hn he.1 he.2) (Labelled.proper_introduce hn he.1 he.2)
  | deferred hb =>
    obtain ⟨_, rfl⟩ := hb
    exact hl.deferred (ho _ (by simp))
  | described _ _ hopen _ _ ih => exact ih (hl.describe (ho _ (by simp)) hopen) (by simp)
  | describedGuarded _ _ _ hplace _ hopen _ _ ih =>
    have hp := ho _ (List.mem_singleton_self _)
    have hguard := hl.openOwn hp.keyed hplace
    have hinner := hguard.describe (hp.mono (by simp)) hopen
    exact (ih hinner (by simp)).closeGuard
  | taken hq _ ih =>
    have hp := hl.proper_dues (hq ▸ List.mem_cons_self)
    refine ih ((hl.take hq).log rfl (by simp)) fun d hd => (hp d hd).mono ?_
    simp
  | takenGuarded _ _ hg => exact hg.elim

end TrapFacts
