import Mathlib.Data.List.Perm.Basic
import TrapFacts.Proofs.Engine.Run

/-! One label for each entity, one definition for each label, one description at most. -/

namespace TrapFacts

variable {α : Type} {w : World} {o owed owed' : List Due} {b : Bool} {cx cx' : Context} {e : Event}
  {slot : Slot} {en : Entity} {l : Label}

namespace Event

/-- The label that an event introduces, hands out or describes. -/
def label? : Event → Option Label
  | .wrote record => record.introduced?
  | .created _ c => some c.label
  | .served _ c => some c.label
  | .populating _ label => some label
  | _ => none

def described? : Event → Option Due
  | .populating entity label => some (entity, label)
  | _ => none

/-- Whether another event may follow. A label is introduced before all else, its entity comes
next, is described once, and its factory is not run again. -/
def Allows (e : Event) : Event → Prop
  | .wrote record => record.introduced? = none ∨ e.label? ≠ record.introduced?
  | .created _ c => e.label? = some c.label → ∃ record, e = .wrote record
  | .populating _ label => ∀ entity, e ≠ .populating entity label
  | .making (.object type source) => ∀ c, e ≠ .created (.object type source) c
  | _ => True

end Event

def Context.described (cx : Context) : List Due :=
  cx.events.filterMap Event.described?

/-- The descriptions that are owed, wait or began. -/
def account (owed : List Due) (cx : Context) : List Due :=
  owed ++ cx.dues ++ cx.described

/-- What the caches know is what was created, and nothing happened out of order. -/
structure Orderly (cx : Context) : Prop where
  order : cx.events.Pairwise Event.Allows
  bounded : ∀ e ∈ cx.events, ∀ l, e.label? = some l → l.number ≤ cx.labels
  created : ∀ slot c, .created slot c ∈ cx.events →
    cx.same? slot c.entity = some c ∧ .wrote (.define c.label c.entity.key) ∈ cx.events
  same : ∀ slot en c, cx.same? slot en = some c →
    ∃ made, .created slot ⟨c.label, made⟩ ∈ cx.events ∧
      (slot = .value → made.key.render = en.key.render)
  served : ∀ slot c, .served slot c ∈ cx.events → cx.same? slot c.entity = some c

/-- No description is owed, waits or began twice, and each is that of a new entity. -/
structure Accounted (owed : List Due) (cx : Context) : Prop where
  once : ((account owed cx).map Prod.snd).Nodup
  created : ∀ d ∈ account owed cx, ∃ slot, .created slot ⟨d.2, d.1⟩ ∈ cx.events

theorem orderly_fresh (x : Extractor) : Orderly { extractor := x } where
  order := .nil
  bounded := by simp [Context.events, Context.moments]
  created := by simp [Context.events, Context.moments]
  same slot _ _ := by cases slot <;> simp [Context.same?, Context.known?]
  served := by simp [Context.events, Context.moments]

theorem accounted_fresh (x : Extractor) : Accounted [] { extractor := x } where
  once := .nil
  created := by simp [account, Context.dues, Context.described, Context.events, Context.moments]

namespace Orderly

/-- One more event, which may follow all others, and creates no entity. -/
theorem event (h : Orderly cx) (he : cx'.events = cx.events ++ [e]) (hs : cx'.same? = cx.same?)
    (hl : cx.labels ≤ cx'.labels) (ho : ∀ e' ∈ cx.events, e'.Allows e)
    (hb : ∀ l, e.label? = some l → l.number ≤ cx'.labels) (hc : ∀ slot c, e ≠ .created slot c)
    (hv : ∀ slot c, e = .served slot c → cx.same? slot c.entity = some c) : Orderly cx' where
  order := by
    rw [he, List.pairwise_append]
    refine ⟨h.order, List.pairwise_singleton _ _, fun e' he' e'' hm => ?_⟩
    rw [List.mem_singleton.1 hm]
    exact ho e' he'
  bounded e' he' l hl' := by
    rw [he, List.mem_append, List.mem_singleton] at he'
    rcases he' with he' | rfl
    · exact Nat.le_trans (h.bounded e' he' l hl') hl
    · exact hb l hl'
  created slot c hm := by
    rw [he, List.mem_append, List.mem_singleton] at hm
    rw [hs, he]
    rcases hm with hm | hm
    · exact ⟨(h.created slot c hm).1, List.mem_append_left _ (h.created slot c hm).2⟩
    · exact absurd hm.symm (hc slot c)
  same slot en c hm := by
    rw [hs] at hm
    obtain ⟨made, hmade, hr⟩ := h.same slot en c hm
    exact ⟨made, he ▸ List.mem_append_left _ hmade, hr⟩
  served slot c hm := by
    rw [he, List.mem_append, List.mem_singleton] at hm
    rw [hs]
    rcases hm with hm | hm
    · exact h.served slot c hm
    · exact hv slot c hm.symm

/-- An event that has no label and runs no factory. -/
theorem plain (h : Orderly cx) (he : cx'.events = cx.events ++ [e]) (hs : cx'.same? = cx.same?)
    (hl : cx.labels ≤ cx'.labels) (hn : e.label? = none) (hm : ∀ slot, e ≠ .making slot) :
    Orderly cx' := by
  refine h.event he hs hl (fun e' _ => ?_) (by simp [hn]) ?_ ?_
  · cases e with
    | wrote record => exact .inl hn
    | created _ _ | populating _ _ => cases hn
    | making slot => exact absurd rfl (hm slot)
    | _ => trivial
  · rintro _ _ rfl
    cases hn
  · rintro _ _ rfl
    cases hn

theorem introducing (h : Orderly cx) {r : Record} (hr : r.introduced? = some cx.nextLabel) :
    Orderly (cx.allocate.write r) := by
  refine h.event (cx.allocate.events_write r) rfl (Nat.le_succ _) (fun e' he' => .inr ?_)
    (fun l hl => ?_) (by rintro _ _ ⟨⟩) (by rintro _ _ ⟨⟩)
  · rw [hr]
    intro hl
    exact absurd (h.bounded e' he' _ hl) (Nat.not_succ_le_self _)
  · obtain rfl : cx.nextLabel = l := Option.some.inj (hr.symm.trans hl)
    exact Nat.le_refl _

theorem making (h : Orderly cx) (hk : cx.known? slot = none) : Orderly (cx.enter slot) := by
  refine h.event (cx.events_enter slot) rfl (Nat.le_refl _) (fun e' he' => ?_) (by rintro _ ⟨⟩)
    (by rintro _ _ ⟨⟩) (by rintro _ _ ⟨⟩)
  cases slot with
  | value => trivial
  | object type source =>
    rintro c rfl
    have hc : cx.known? (.object type source) = some c := (h.created _ c he').1
    simp [hk] at hc

theorem populating (h : Orderly cx) (hl : l.number ≤ cx.labels)
    (hn : ∀ en, .populating en l ∉ cx.events) : Orderly (cx.populating en l) := by
  refine h.event (cx.events_populating en l) rfl (Nat.le_refl _) ?_ ?_ (by rintro _ _ ⟨⟩)
    (by rintro _ _ ⟨⟩)
  · rintro e' he' en rfl
    exact hn en he'
  · rintro _ ⟨⟩
    exact hl

theorem allows_introduce (h : Orderly cx) (he : e ∈ cx.events ++ cx.collision en.key.render) :
    e.label? ≠ some cx.nextLabel := by
  intro hl
  rcases List.mem_append.1 he with he | he
  · exact absurd (h.bounded e he _ hl) (Nat.not_succ_le_self _)
  · obtain ⟨message, rfl⟩ := cx.sent_of_mem_collision _ he
    cases hl

/-- A new entity keeps the order of events: its label is defined before anything is said of it. -/
theorem introduce (h : Orderly cx) (hs : cx.same? slot en = none) :
    Orderly (cx.introduce slot en).2 where
  order := by
    have hcollision : (cx.collision en.key.render).Pairwise Event.Allows := by
      unfold Context.collision
      split <;> simp
    rw [Context.events_introduce, List.pairwise_append, List.pairwise_append]
    refine ⟨⟨h.order, hcollision, fun e _ e' he' => ?_⟩, ?_, fun e he e' he' => ?_⟩
    · obtain ⟨message, rfl⟩ := cx.sent_of_mem_collision _ he'
      trivial
    · exact List.pairwise_pair.2 fun _ => ⟨_, rfl⟩
    · have hn := h.allows_introduce he
      simp only [List.mem_cons, List.not_mem_nil, or_false] at he'
      rcases he' with rfl | rfl
      · exact .inr hn
      · exact fun hl => absurd hl hn
  bounded e he l hl := by
    rw [Context.labels_introduce]
    rcases Context.mem_events_introduce he with he | ⟨message, rfl⟩ | rfl | rfl
    · exact Nat.le_succ_of_le (h.bounded e he l hl)
    · cases hl
    · cases hl
      exact Nat.le_refl _
    · cases hl
      exact Nat.le_refl _
  created slot' c hm := by
    rcases Context.mem_events_introduce hm with hm | ⟨message, hm⟩ | hm | hm
    · obtain ⟨hsame, hdefined⟩ := h.created slot' c hm
      exact ⟨(Frame.introduce hs).same hsame, (Frame.introduce hs).events.subset hdefined⟩
    · cases hm
    · cases hm
    · cases hm
      refine ⟨?_, by simp⟩
      rw [Context.same?_introduce, if_pos ⟨rfl, fun _ => rfl⟩]
      simp
  same slot' en' c hm := by
    rw [Context.same?_introduce] at hm
    rw [Context.events_introduce]
    split at hm
    · next heq =>
      obtain ⟨rfl, hr⟩ := heq
      obtain rfl := Option.some.inj hm
      exact ⟨en, by simp, hr⟩
    · obtain ⟨made, hmade, hr⟩ := h.same slot' en' c hm
      exact ⟨made, by simp [hmade], hr⟩
  served slot' c hm := by
    rcases Context.mem_events_introduce hm with hm | ⟨message, hm⟩ | hm | hm
    · exact (Frame.introduce hs).same (h.served slot' c hm)
    · cases hm
    · cases hm
    · cases hm

end Orderly

namespace Accounted

/-- The account of who is owed a description is kept where no one is added or lost. -/
theorem perm (h : Accounted owed cx) (he : cx.events <+: cx'.events)
    (ha : (account owed' cx').Perm (account owed cx)) : Accounted owed' cx' where
  once := (ha.map Prod.snd).nodup_iff.2 h.once
  created d hd := by
    obtain ⟨slot, hc⟩ := h.created d (ha.subset hd)
    exact ⟨slot, he.subset hc⟩

/-- What is owed need not be paid. -/
theorem drop (h : Accounted (o ++ owed) cx) : Accounted owed cx := by
  have hsub : (account owed cx).Sublist (account (o ++ owed) cx) := by
    simp only [account, List.append_assoc]
    exact List.sublist_append_right o _
  exact ⟨h.once.sublist (hsub.map Prod.snd), fun d hd => h.created d (hsub.subset hd)⟩

/-- One more event, which begins no description. -/
theorem event (h : Accounted owed cx) (he : cx'.events = cx.events ++ [e])
    (hd : cx'.dues = cx.dues) (hn : e.described? = none) : Accounted owed cx' := by
  refine h.perm ⟨_, he.symm⟩ (.of_eq ?_)
  simp [account, Context.described, he, hd, hn]

theorem deferred {body : Prog Unit} (h : Accounted ((en, l) :: owed) cx) :
    Accounted owed (cx.enqueue (.population en l body)) := by
  have hdues : (cx.enqueue (.population en l body)).dues = cx.dues ++ [(en, l)] := by
    simp [Context.dues, Context.enqueue, Context.log, Work.dues]
  refine h.perm ⟨_, (cx.events_enqueue _).symm⟩ (List.perm_iff_count.2 fun d => ?_)
  simp [account, Context.described, hdues, List.filterMap_cons, Event.described?, List.count_cons]
  omega

theorem populating (h : Accounted ((en, l) :: owed) cx) : Accounted owed (cx.populating en l) := by
  have hdues : (cx.populating en l).dues = cx.dues := rfl
  refine h.perm ⟨_, (cx.events_populating en l).symm⟩ (List.perm_iff_count.2 fun d => ?_)
  simp [account, Context.described, hdues, Event.described?, List.count_cons]
  omega

theorem take {a : Pending} {rest : List Pending} (h : Accounted owed cx)
    (hq : cx.queue = a :: rest) : Accounted (a.work.dues ++ owed) (cx.take a rest) := by
  have hdues : cx.dues = a.work.dues ++ (cx.take a rest).dues := by
    simp [Context.dues, hq, Context.take, Context.log]
  refine h.perm ⟨_, (cx.events_take a rest).symm⟩ (List.perm_iff_count.2 fun d => ?_)
  simp [account, Context.described, hdues, List.filterMap_cons, Event.described?]
  omega

/-- A new entity is owed its description. -/
theorem introduce (h : Accounted owed cx) (ho : Orderly cx) :
    Accounted ((cx.introduce slot en).1.dues ++ owed) (cx.introduce slot en).2 := by
  have hcollision : (cx.collision en.key.render).filterMap Event.described? = [] := by
    refine List.filterMap_eq_nil_iff.2 fun e he => ?_
    obtain ⟨message, rfl⟩ := cx.sent_of_mem_collision _ he
    rfl
  have haccount : account ((cx.introduce slot en).1.dues ++ owed) (cx.introduce slot en).2 =
      (cx.introduce slot en).1.dues ++ account owed cx := by
    simp [account, Context.described, Context.dues, hcollision, Event.described?]
  have hfresh : ∀ d ∈ account owed cx, d.2 ≠ cx.nextLabel := by
    intro d hd hl
    obtain ⟨slot', hc⟩ := h.created d hd
    exact absurd (ho.bounded _ hc _ (congrArg some hl)) (Nat.not_succ_le_self _)
  refine ⟨?_, fun d hd => ?_⟩
  · rw [haccount]
    unfold Created.dues
    split
    · refine List.nodup_cons.2 ⟨fun hm => ?_, h.once⟩
      obtain ⟨d, hd, hl⟩ := List.mem_map.1 hm
      exact hfresh d hd hl
    · exact h.once
  · rw [haccount] at hd
    rw [Context.events_introduce]
    rcases List.mem_append.1 hd with hd | hd
    · refine ⟨slot, ?_⟩
      unfold Created.dues at hd
      split at hd
      · obtain rfl := List.mem_singleton.1 hd
        simp [Context.introduce]
      · cases hd
    · obtain ⟨slot', hc⟩ := h.created d hd
      exact ⟨slot', by simp [hc]⟩

end Accounted

structure Sound (owed : List Due) (cx : Context) : Prop where
  orderly : Orderly cx
  accounted : Accounted owed cx

namespace Sound

theorem drop (h : Sound (o ++ owed) cx) : Sound owed cx :=
  ⟨h.orderly, h.accounted.drop⟩

/-- A change of what no event tells of. -/
theorem still (h : Sound owed cx) (he : cx'.events = cx.events) (hs : cx'.same? = cx.same?)
    (hl : cx'.labels = cx.labels) (hd : cx'.dues = cx.dues) : Sound owed cx' where
  orderly := by
    obtain ⟨horder, hbounded, hcreated, hsame, hserved⟩ := h.orderly
    rw [← he] at horder hbounded hcreated hsame hserved
    rw [← hs] at hcreated hsame hserved
    rw [← hl] at hbounded
    exact ⟨horder, hbounded, hcreated, hsame, hserved⟩
  accounted := by
    refine h.accounted.perm (he ▸ List.prefix_rfl) (.of_eq ?_)
    rw [account, account, Context.described, Context.described, he, hd]

theorem plain (h : Sound owed cx) (he : cx'.events = cx.events ++ [e]) (hs : cx'.same? = cx.same?)
    (hl : cx.labels ≤ cx'.labels) (hd : cx'.dues = cx.dues) (hn : e.label? = none)
    (hm : ∀ slot, e ≠ .making slot) : Sound owed cx' := by
  refine ⟨h.orderly.plain he hs hl hn hm, h.accounted.event he hd ?_⟩
  cases e with
  | populating => cases hn
  | _ => rfl

theorem log (h : Sound owed cx) (hn : e.label? = none) (hm : ∀ slot, e ≠ .making slot) :
    Sound owed (cx.log e) :=
  h.plain (cx.events_log e) rfl (Nat.le_refl _) rfl hn hm

theorem send (h : Sound owed cx) (message : Message) (about : Option Concern) :
    Sound owed (cx.send message about) :=
  h.plain (cx.events_send message about) rfl (Nat.le_refl _) rfl rfl (by simp)

theorem openGuard (h : Sound owed cx) (key : Key) : Sound owed (cx.openGuard key) :=
  h.plain (cx.events_openGuard key) rfl (Nat.le_refl _) rfl rfl (by simp)

theorem closeGuard (h : Sound owed cx) : Sound owed cx.closeGuard :=
  h.plain cx.events_closeGuard rfl (Nat.le_refl _) rfl rfl (by simp)

theorem take {a : Pending} {rest : List Pending} (h : Sound owed cx) (hq : cx.queue = a :: rest) :
    Sound (a.work.dues ++ owed) (cx.take a rest) :=
  ⟨h.orderly.plain (cx.events_take a rest) rfl (Nat.le_refl _) rfl (by simp), h.accounted.take hq⟩

theorem enter (h : Sound owed cx) (hk : cx.known? slot = none) : Sound owed (cx.enter slot) :=
  ⟨h.orderly.making hk, h.accounted.event (cx.events_enter slot) rfl rfl⟩

theorem leave (h : Sound owed cx) : Sound owed cx.leave :=
  h.still rfl rfl rfl rfl

theorem introduce (h : Sound owed cx) (hs : cx.same? slot en = none) :
    Sound ((cx.introduce slot en).1.dues ++ owed) (cx.introduce slot en).2 :=
  ⟨h.orderly.introduce hs, h.accounted.introduce h.orderly⟩

theorem deferred {body : Prog Unit} (h : Sound ((en, l) :: owed) cx) :
    Sound owed (cx.enqueue (.population en l body)) :=
  ⟨h.orderly.plain (cx.events_enqueue _) rfl (Nat.le_refl _) rfl (by simp), h.accounted.deferred⟩

theorem introducing (h : Sound owed cx) {r : Record} (hr : r.introduced? = some cx.nextLabel) :
    Sound owed (cx.allocate.write r) :=
  ⟨h.orderly.introducing hr, h.accounted.event (cx.allocate.events_write r) rfl rfl⟩

theorem populating (h : Sound ((en, l) :: owed) cx) : Sound owed (cx.populating en l) := by
  obtain ⟨slot, hc⟩ := h.accounted.created (en, l) (by simp [account])
  refine ⟨h.orderly.populating (h.orderly.bounded _ hc l rfl) fun en' hm => ?_,
    h.accounted.populating⟩
  have honce := h.accounted.once
  simp only [account, List.cons_append, List.map_cons, List.nodup_cons] at honce
  refine honce.1 (List.mem_map.2 ⟨(en', l), List.mem_append_right _ ?_, rfl⟩)
  exact List.mem_filterMap.2 ⟨_, hm, rfl⟩

theorem served {c : Created} (h : Sound owed cx) (hs : cx.same? slot c.entity = some c) :
    Sound owed (cx.log (.served slot c)) := by
  obtain ⟨made, hm, _⟩ := h.orderly.same slot c.entity c hs
  refine ⟨h.orderly.event (cx.events_log _) rfl (Nat.le_refl _) (fun _ _ => trivial) ?_
    (by simp) ?_, h.accounted.event (cx.events_log _) rfl rfl⟩
  · rintro l ⟨⟩
    exact h.orderly.bounded _ hm _ rfl
  · rintro _ _ ⟨⟩
    exact hs

/-- A deed keeps the order of events and the account. -/
theorem deed (h : Sound owed cx) (hd : Deed cx cx') : Sound owed cx' := by
  cases hd with
  | fresh | define => exact h.introducing rfl
  | setAssemblyFile | openGenerics =>
    exact h.still rfl rfl rfl rfl
  | later =>
    refine h.plain (cx.events_enqueue _) rfl (Nat.le_refl _) ?_ rfl (by simp)
    simp [Context.dues, Context.enqueue, Context.log, Work.dues]
  | _ => exact h.plain (Context.events_log _ _) rfl (Nat.le_refl _) rfl rfl (by simp)

end Sound

/-- A trail keeps the caches and the events in agreement, and pays what was owed. -/
theorem Trail.sound (h : Trail w .free o b cx cx') (hs : Sound (o ++ owed) cx) :
    Sound owed cx' := by
  induction h generalizing owed with
  | refl => exact hs
  | trans _ _ ih ih' => exact ih' (ih (by rwa [List.append_assoc] at hs))
  | stop _ _ ih => exact ih hs.drop
  | caught _ _ ih => exact ih hs
  | deed h => exact hs.deed h
  | sent | complaint | reported => exact hs.send _ _
  | excused => exact hs.drop.send _ _
  | limit => exact hs.log rfl (by simp)
  | served hc => exact hs.served hc
  | guarded _ _ _ ih => exact (ih (hs.openGuard _)).closeGuard
  | nested hk _ _ ih => exact (ih (hs.enter hk)).leave
  | introduced hn _ _ ih => exact ih (hs.introduce hn)
  | deferred => exact hs.deferred
  | described _ _ ho _ _ ih =>
    obtain rfl := ho
    exact ih hs.populating
  | describedGuarded _ _ _ _ _ ho _ _ ih =>
    obtain rfl := ho
    exact (ih (hs.openGuard _).populating).closeGuard
  | taken hq _ ih => exact ih ((hs.take hq).log rfl (by simp))
  | takenGuarded hq _ _ _ ih => exact (ih (((hs.take hq).openGuard _).log rfl (by simp))).closeGuard

end TrapFacts
