import TrapFacts.Proofs.Engine.Permissions
import TrapFacts.Proofs.Engine.Queue

/-! Descriptions are queued once, so a budget that has one turn for each of them is enough. -/

namespace TrapFacts

variable {w : World} {site : Site} {due : Option Due} {cx cx' : Context} {e : Event} {en : Entity}
  {body : Prog Unit}

def Event.enrolled? : Event → Option Created
  | .queued _ entity => entity
  | _ => none

/-- The entities whose descriptions were queued. -/
def Context.enrolled (cx : Context) : List Created :=
  cx.events.filterMap Event.enrolled?

theorem Context.enrolled_introduce (cx : Context) (slot : Slot) (en : Entity) :
    (cx.introduce slot en).2.enrolled = cx.enrolled := by
  have hcollision : (cx.collision en.key.render).filterMap Event.enrolled? = [] := by
    refine List.filterMap_eq_nil_iff.2 fun e he => ?_
    rw [cx.eq_of_mem_collision he]
    rfl
  simp [enrolled, hcollision, Event.enrolled?]

theorem Context.enrolled_enqueue (cx : Context) (en : Entity) (l : Label) (body : Prog Unit) :
    (cx.enqueue (.population en l body)).enrolled = cx.enrolled ++ [⟨l, en⟩] := by
  rw [enrolled, events_enqueue, List.filterMap_append]
  rfl

/-- No description was queued twice, and each is that of a new entity which may have to wait. -/
structure Enrolled (cx : Context) : Prop where
  once : (cx.enrolled.map Created.label).Nodup
  created : ∀ c ∈ cx.enrolled, ∃ slot, .created slot c ∈ cx.events
  bounded : ∀ c ∈ cx.enrolled, c.label.number ≤ cx.labels
  waits : ∀ c ∈ cx.enrolled, c.entity.behavior = .noScope ∨ c.entity.behavior = .pushesScope

namespace Enrolled

theorem fresh (x : Extractor) : Enrolled { extractor := x } := by
  constructor <;> simp [Context.enrolled, Context.events, Context.moments]

/-- Whatever happens, if nothing is queued. -/
theorem quiet (h : Enrolled cx) (he : cx'.enrolled = cx.enrolled)
    (hevents : cx.events <+: cx'.events) (hl : cx.labels ≤ cx'.labels) : Enrolled cx' where
  once := he ▸ h.once
  created c hc := by
    obtain ⟨slot, hslot⟩ := h.created c (he ▸ hc)
    exact ⟨slot, hevents.subset hslot⟩
  bounded c hc := Nat.le_trans (h.bounded c (he ▸ hc)) hl
  waits c hc := h.waits c (he ▸ hc)

theorem event (h : Enrolled cx) (he : cx'.events = cx.events ++ [e]) (hn : e.enrolled? = none)
    (hl : cx.labels ≤ cx'.labels) : Enrolled cx' := by
  refine h.quiet ?_ ⟨_, he.symm⟩ hl
  simp [Context.enrolled, he, hn]

theorem log (h : Enrolled cx) (hn : e.enrolled? = none) : Enrolled (cx.log e) :=
  h.event (cx.events_log e) hn (Nat.le_refl _)

theorem send (h : Enrolled cx) (message : Message) (about : Option Concern) :
    Enrolled (cx.send message about) :=
  h.event (cx.events_send message about) rfl (Nat.le_refl _)

theorem openGuard (h : Enrolled cx) (key : Key) : Enrolled (cx.openGuard key) :=
  h.event (cx.events_openGuard key) rfl (Nat.le_refl _)

theorem closeGuard (h : Enrolled cx) : Enrolled cx.closeGuard :=
  h.event cx.events_closeGuard rfl (Nat.le_refl _)

theorem take (h : Enrolled cx) (a : Pending) (rest : List Pending) : Enrolled (cx.take a rest) :=
  h.event (cx.events_take a rest) rfl (Nat.le_refl _)

theorem populating (h : Enrolled cx) (en : Entity) (l : Label) : Enrolled (cx.populating en l) :=
  h.event (cx.events_populating en l) rfl (Nat.le_refl _)

theorem introduce (h : Enrolled cx) (slot : Slot) (en : Entity) :
    Enrolled (cx.introduce slot en).2 := by
  have hevents : cx.events <+: (cx.introduce slot en).2.events := by
    rw [Context.events_introduce, List.append_assoc]
    exact List.prefix_append _ _
  exact h.quiet (cx.enrolled_introduce slot en) hevents (by simp)

theorem announce (h : Enrolled cx) (slot : Slot) (en : Entity) :
    Enrolled (w.announce slot en cx) := by
  unfold World.announce World.complain
  split
  · exact (h.introduce slot en).send _ _
  · exact h.introduce slot en

/-- A new entity has a label that none before it had. -/
theorem deferred (h : Enrolled cx) (slot : Slot)
    (hd : (en.behavior.plan (!cx.guards.isEmpty)).deferred = true) :
    Enrolled ((w.announce slot en cx).enqueue (.population en cx.nextLabel body)) := by
  let c : Created := ⟨cx.nextLabel, en⟩
  let cx₁ := (cx.introduce slot en).2
  rw [World.announce_of_deferred hd]
  have hmade := h.introduce slot en
  have henrolled : (cx₁.enqueue (.population en cx.nextLabel body)).enrolled =
      cx.enrolled ++ [c] := by
    rw [Context.enrolled_enqueue, cx.enrolled_introduce slot en]
  have hcases : ∀ c' ∈ (cx₁.enqueue (.population en cx.nextLabel body)).enrolled,
      c' ∈ cx₁.enrolled ∨ c' = c := by
    intro c' hc'
    rwa [henrolled, List.mem_append, List.mem_singleton, ← cx.enrolled_introduce slot en] at hc'
  constructor
  · rw [henrolled, List.map_append, List.nodup_append]
    refine ⟨h.once, List.pairwise_singleton _ _, ?_⟩
    rintro l hl l' hl' rfl
    obtain ⟨c', hc', rfl⟩ := List.mem_map.1 hl
    have hold : c'.label.number ≤ cx.labels := h.bounded c' hc'
    have hnew : c'.label = cx.nextLabel := List.mem_singleton.1 hl'
    rw [hnew] at hold
    exact absurd hold (Nat.not_succ_le_self _)
  · intro c' hc'
    rcases hcases c' hc' with hc' | rfl
    · obtain ⟨slot', hslot'⟩ := hmade.created c' hc'
      exact ⟨slot', (Frame.enqueue cx₁ _).events.subset hslot'⟩
    · exact ⟨slot, (Frame.enqueue cx₁ _).events.subset (by simp [cx₁, c])⟩
  · intro c' hc'
    rcases hcases c' hc' with hc' | rfl
    · exact hmade.bounded c' hc'
    · exact Nat.le_of_eq (cx.labels_introduce slot en).symm
  · intro c' hc'
    rcases hcases c' hc' with hc' | rfl
    · exact hmade.waits c' hc'
    · exact (World.plan_deferred.1 hd).2

/-- Deeds put off programs alone, no descriptions. -/
theorem deed (h : Enrolled cx) (hd : Deed cx cx') : Enrolled cx' := by
  cases hd with
  | fresh | define => exact h.event (Context.events_write _ _) rfl (Nat.le_succ _)
  | emit => exact h.event (cx.events_write _) rfl (Nat.le_refl _)
  | missingType => exact h.event (cx.events_missingType _) rfl (Nat.le_refl _)
  | setAssemblyFile | openGenerics => exact h.quiet rfl List.prefix_rfl (Nat.le_refl _)
  | note => exact h.log rfl
  | later => exact h.event (cx.events_enqueue _) rfl (Nat.le_refl _)

end Enrolled

/-- In any course, no description is put off twice. -/
theorem Course.enrolled (h : Course w site due cx cx') (hn : Enrolled cx) : Enrolled cx' := by
  induction h with
  | refl => exact hn
  | trans _ _ ih ih' => exact ih' (ih hn)
  | deed h => exact hn.deed h
  | sent | excused | reported => exact hn.send _ _
  | limit | served => exact hn.log rfl
  | guarded _ _ ih => exact (ih (hn.openGuard _)).closeGuard
  | @nested slot cx cx' _ ih =>
    have henter : Enrolled (cx.enter slot) := hn.event (cx.events_enter slot) rfl (Nat.le_refl _)
    exact (ih henter).quiet rfl List.prefix_rfl (Nat.le_refl _)
  | bare => exact hn.introduce _ _
  | prompt _ _ _ ih => exact ih (hn.announce _ _)
  | deferred slot _ _ hd => exact hn.deferred slot hd
  | described _ _ ih => exact ih (hn.populating _ _)
  | describedGuarded _ _ _ _ ih => exact (ih ((hn.openGuard _).populating _ _)).closeGuard
  | stopped _ ih => exact ih hn
  | taken _ _ _ ih | resumed _ _ ih => exact ih ((hn.take _ _).log rfl)
  | takenGuarded _ _ _ ih => exact (ih (((hn.take _ _).openGuard _).log rfl)).closeGuard

theorem numbers_eq (kind : Event → Option Nat) (cx : Context) :
    numbers kind cx.moments = cx.events.filterMap kind := by
  simp only [numbers, Context.events, List.filterMap_map]
  rfl

/-- Where all that was queued are descriptions, each of them left the queue or still waits. -/
theorem Counted.enrolled (h : Counted cx)
    (hq : ∀ number entity, .queued number entity ∈ cx.events → entity.isSome = true) :
    Permissions.takings cx + cx.queue.length = cx.enrolled.length := by
  have hlength : (cx.events.filterMap Event.queued?).length = cx.enrolled.length := by
    unfold Context.enrolled
    rw [List.length_filterMap_eq_countP, List.length_filterMap_eq_countP]
    refine List.countP_congr fun e he => ?_
    cases e with
    | queued number entity => simp [Event.queued?, Event.enrolled?, hq number entity he]
    | _ => simp [Event.queued?, Event.enrolled?]
  have hqueued := congrArg List.length h.queued
  have hwaiting := congrArg List.length h.waiting
  rw [numbers_eq, List.length_range] at hqueued
  rw [numbers_eq, List.length_append, List.length_map, List.length_range] at hwaiting
  unfold Permissions.takings
  omega

end TrapFacts
