import TrapFacts.Proofs.Unit.ScopedUnit

/-! Facts mention no labels but those of entities, apart from the rows of labels without a key, and
what is reported missing is a type that the unit came upon. -/

namespace TrapFacts

variable {u : ScopedUnit} {o : List Due} {b : Bool} {cx cx' : Context} {e : Event} {slot : Slot}
  {en : Entity} {l : Label} {t : Tuple} {name : String}

namespace Context

/-- A fact may mention the labels that all facts may, and the one that a parameter's row is for. -/
def Cites (cx : Context) (t : Tuple) : Prop :=
  ∀ l ∈ t.args.filterMap Value.label?, cx.Citable l ∨ ∃ rest, t = ⟨"params", .label l :: rest⟩

theorem Cites.mono (h : cx.Cites t) (he : cx.events <+: cx'.events) : cx'.Cites t :=
  fun l hl => (h l hl).imp_left (·.mono he)

end Context

namespace ScopedUnit

/-- The name of an unresolved type that the unit gave a label to. -/
def Missed (u : ScopedUnit) (name : String) (cx : Context) : Prop :=
  ∃ t l, cx.Introduced (.namedType t) l ∧ t.kind = .error ∧ name = u.model.displayName t.symbol

theorem Missed.mono (h : u.Missed name cx) (he : cx.events <+: cx'.events) : u.Missed name cx' := by
  obtain ⟨t, l, hi, hk, hn⟩ := h
  exact ⟨t, l, hi.mono he, hk, hn⟩

/-- Facts and missing types have their grounds. -/
structure Grounded (u : ScopedUnit) (cx : Context) : Prop where
  cites : ∀ t, .tuple t ∈ cx.trap → cx.Cites t
  missed : ∀ name, .missing name ∈ cx.events → u.Missed name cx

theorem grounded_fresh (u : ScopedUnit) (x : Extractor) : u.Grounded { extractor := x } where
  cites := by simp [Context.trap]
  missed := by simp [Context.events, Context.moments]

namespace Grounded

theorem still (h : u.Grounded cx) (he : cx'.events = cx.events) : u.Grounded cx' := by
  have hmono : cx.events <+: cx'.events := he ▸ List.prefix_rfl
  refine ⟨fun t ht => (h.cites t ?_).mono hmono, fun name hn => (h.missed name ?_).mono hmono⟩
  · rwa [Context.trap_eq, he, ← Context.trap_eq] at ht
  · rwa [he] at hn

theorem event (h : u.Grounded cx) (he : cx'.events = cx.events ++ [e])
    (hc : ∀ t, e = .wrote (.tuple t) → cx'.Cites t)
    (hm : ∀ name, e = .missing name → u.Missed name cx') : u.Grounded cx' := by
  have hmono : cx.events <+: cx'.events := ⟨_, he.symm⟩
  refine ⟨fun t ht => ?_, fun name hn => ?_⟩
  · rw [Context.trap_event he, List.mem_append] at ht
    rcases ht with ht | ht
    · exact (h.cites t ht).mono hmono
    · cases e with
      | wrote r => exact hc t (congrArg Event.wrote (List.mem_singleton.1 ht).symm)
      | _ => cases ht
  · rw [he, List.mem_append, List.mem_singleton] at hn
    rcases hn with hn | hn
    · exact (h.missed name hn).mono hmono
    · exact hm name hn.symm

/-- An event that states no fact and misses no type. -/
theorem quiet (h : u.Grounded cx) (he : cx'.events = cx.events ++ [e])
    (hc : ∀ t, e ≠ .wrote (.tuple t)) (hm : ∀ name, e ≠ .missing name) : u.Grounded cx' :=
  h.event he (fun t ht => absurd ht (hc t)) fun name hn => absurd hn (hm name)

theorem log (h : u.Grounded cx) (hc : ∀ t, e ≠ .wrote (.tuple t))
    (hm : ∀ name, e ≠ .missing name) : u.Grounded (cx.log e) :=
  h.quiet (cx.events_log e) hc hm

theorem send (h : u.Grounded cx) (message : Message) (about : Option Concern) :
    u.Grounded (cx.send message about) :=
  h.quiet (cx.events_send message about) (by simp) (by simp)

theorem openGuard (h : u.Grounded cx) (key : Key) : u.Grounded (cx.openGuard key) :=
  h.quiet (cx.events_openGuard key) (by simp) (by simp)

theorem closeGuard (h : u.Grounded cx) : u.Grounded cx.closeGuard :=
  h.quiet cx.events_closeGuard (by simp) (by simp)

theorem take (h : u.Grounded cx) (a : Pending) (rest : List Pending) :
    u.Grounded (cx.take a rest) :=
  h.quiet (cx.events_take a rest) (by simp) (by simp)

/-- A new entity cites nothing that was not introduced. -/
theorem introduce (h : u.Grounded cx) (hs : cx.same? slot en = none) :
    u.Grounded (cx.introduce slot en).2 := by
  have hmono := (Frame.introduce hs).events
  refine ⟨fun t ht => (h.cites t ?_).mono hmono, fun name hn => (h.missed name ?_).mono hmono⟩
  · simpa [Context.trap_introduce] using ht
  · rcases Context.mem_events_introduce hn with hn | ⟨message, hn⟩ | hn | hn
    · exact hn
    · cases hn
    · cases hn
    · cases hn

theorem fact (h : u.Grounded cx) (hc : (cx.write (.tuple t)).Cites t) :
    u.Grounded (cx.write (.tuple t)) := by
  refine h.event (cx.events_write _) ?_ (by simp)
  rintro _ ⟨⟩
  exact hc

/-- A label without a key is mentioned by its own row, and that of the compilation by more. -/
theorem fresh (h : u.Grounded cx) {relation : String} {args : List Value}
    (hr : relation = "compilations" ∨ relation = "params")
    (ha : ∀ l ∈ args.filterMap Value.label?, cx.Keyed l) :
    u.Grounded ((cx.allocate.write (.fresh cx.nextLabel)).write
      (.tuple ⟨relation, .label cx.nextLabel :: args⟩)) := by
  let opened := cx.allocate.write (.fresh cx.nextLabel)
  let stated := opened.write (.tuple ⟨relation, .label cx.nextLabel :: args⟩)
  have hopened : u.Grounded opened := by
    have hallocate : u.Grounded cx.allocate := h.still rfl
    exact hallocate.quiet (cx.allocate.events_write _) (by simp) (by simp)
  have hmono : cx.events <+: stated.events :=
    (Frame.deed (.fresh cx)).events.trans (Frame.deed (.emit opened _)).events
  refine hopened.fact fun l hl => ?_
  simp only [List.filterMap_cons, Value.label?, List.mem_cons] at hl
  rcases hl with rfl | hl
  · rcases hr with rfl | rfl
    · refine .inl (.inr ⟨⟨.fresh cx.nextLabel, ?_, rfl⟩, args, ?_⟩)
      · simp [opened]
      · simp
    · exact .inr ⟨args, rfl⟩
  · exact .inl (.inl ((ha l hl).mono hmono))

/-- What a program states cites only what was introduced. -/
theorem stating (h : u.Grounded cx) (hs : u.Stating cx cx') : u.Grounded cx' := by
  cases hs with
  | fact _ ha => exact h.fact fun l hl => .inl ((ha l hl).mono (Frame.deed (.emit cx _)).events)
  | compilation ha => exact h.fresh (.inl rfl) ha
  | parameter ha => exact h.fresh (.inr rfl) ha
  | missingType hi hk =>
    refine h.event (cx.events_missingType _) (by simp) ?_
    rintro _ ⟨⟩
    exact ⟨_, _, hi.mono (Frame.deed (.missingType cx _)).events, hk, rfl⟩
  | openGenerics => exact h.still (cx.events_openGenerics _)

/-- The row of a description mentions its entity and what that refers to. -/
theorem opening (h : u.Grounded cx) (hp : Proper u.model cx (en, l))
    (ho : Opening en l (cx.populating en l) cx') : u.Grounded cx' := by
  obtain ⟨relation, args, _, ha, rfl⟩ := ho
  have hpopulating : u.Grounded (cx.populating en l) :=
    h.quiet (cx.events_populating en l) (by simp) (by simp)
  have hmono : cx.events <+:
      ((cx.populating en l).write (.tuple ⟨relation, .label l :: args⟩)).events :=
    (Frame.populating cx en l).events.trans (Frame.deed (.emit _ _)).events
  refine hpopulating.fact fun l' hl' => .inl (.inl ?_)
  simp only [List.filterMap_cons, Value.label?, List.mem_cons] at hl'
  rcases hl' with rfl | hl'
  · exact hp.keyed.mono hmono
  · exact (hp.labels l' (ha l' hl')).mono hmono

end Grounded

end ScopedUnit

/-- The trails of a unit state nothing groundless. -/
theorem Trail.grounded (h : Trail u.world u.manner o b cx cx') (hg : u.Grounded cx)
    (hl : Labelled u.model u.scope cx) (ho : ∀ d ∈ o, Proper u.model cx d) : u.Grounded cx' := by
  induction h with
  | refl => exact hg
  | trans h _ ih ih' =>
    have ho₁ := fun d hd => ho d (List.mem_append_left _ hd)
    exact ih' (ih hg hl ho₁) (h.coarse.labelled hl ho₁) fun d hd =>
      (ho d (List.mem_append_right _ hd)).mono h.frame.events
  | stop _ _ ih => exact ih hg hl (by simp)
  | caught hc => exact hc.elim
  | deed h => exact hg.stating h
  | sent | complaint | excused | reported => exact hg.send _ _
  | limit | served => exact hg.log (by simp) (by simp)
  | guarded _ hguard => exact hguard.elim
  | nested _ _ _ ih =>
    have hinner := ih (hg.quiet (Context.events_enter _ _) (by simp) (by simp))
      (hl.quiet (Context.events_enter _ _) rfl rfl rfl (by simp)) (by simp)
    exact hinner.still (Context.events_leave _)
  | introduced hs he _ ih =>
    exact ih (hg.introduce hs) (hl.introduce hs he.1.1 he.1.2)
      (Labelled.proper_introduce hs he.1.1 he.1.2)
  | deferred => exact hg.quiet (Context.events_enqueue _ _) (by simp) (by simp)
  | described _ _ hopen _ _ ih =>
    have hp := ho _ (List.mem_singleton_self _)
    exact ih (hg.opening hp hopen.1) (hl.describe hp hopen.1) (by simp)
  | describedGuarded _ _ _ hplace _ hopen _ _ ih =>
    have hp := ho _ (List.mem_singleton_self _)
    have hguard := hl.openOwn hp.keyed hplace
    have hopened := (hg.openGuard _).opening (hp.mono (by simp)) hopen.1
    exact (ih hopened (hguard.describe (hp.mono (by simp)) hopen.1) (by simp)).closeGuard
  | taken hq _ ih =>
    have hp := hl.proper_dues (hq ▸ List.mem_cons_self)
    refine ih ((hg.take _ _).log (by simp) (by simp)) ((hl.take hq).log rfl (by simp))
      fun d hd => (hp d hd).mono ?_
    exact (Frame.take _ _ _).events.trans (Frame.log _ _).events
  | takenGuarded _ _ hguard => exact hguard.elim

end TrapFacts
