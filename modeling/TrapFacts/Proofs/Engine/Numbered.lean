import Mathlib.Data.List.Pairwise
import TrapFacts.Proofs.Engine.Run

/-! Labels are numbered in the order in which the trap introduces them. -/

namespace TrapFacts

variable {α : Type} {w : World} {o : List Due} {b : Bool} {cx cx' : Context} {e : Event}
  {r : Record} {slot : Slot} {en : Entity}

/-- The counters agree with the trap: the labels are introduced in order, from one on. -/
structure Numbered (cx : Context) : Prop where
  labels : cx.trap.filterMap Record.introduced? = (List.range cx.labels).map fun k => ⟨k + 1⟩
  records : cx.records = cx.trap.length

theorem numbered_fresh (x : Extractor) : Numbered { extractor := x } :=
  ⟨rfl, rfl⟩

namespace Numbered

/-- A change that no record tells of. -/
theorem quiet (h : Numbered cx) (ht : cx'.trap = cx.trap) (hl : cx'.labels = cx.labels)
    (hn : cx'.records = cx.records) : Numbered cx' :=
  ⟨by rw [ht, hl, h.labels], by rw [ht, hn, h.records]⟩

theorem event (h : Numbered cx) (he : cx'.events = cx.events ++ [e]) (hr : e.record? = none)
    (hl : cx'.labels = cx.labels) (hn : cx'.records = cx.records) : Numbered cx' :=
  h.quiet (by rw [Context.trap_event he, hr, Option.toList_none, List.append_nil]) hl hn

theorem record (h : Numbered cx) (ht : cx'.trap = cx.trap ++ [r]) (hr : r.introduced? = none)
    (hl : cx'.labels = cx.labels) (hn : cx'.records = cx.records + 1) : Numbered cx' := by
  refine ⟨?_, ?_⟩
  · rw [ht, hl, List.filterMap_append, h.labels]
    simp [hr]
  · rw [ht, hn, h.records]
    simp

theorem introducing (h : Numbered cx) (ht : cx'.trap = cx.trap ++ [r])
    (hr : r.introduced? = some cx.nextLabel) (hl : cx'.labels = cx.labels + 1)
    (hn : cx'.records = cx.records + 1) : Numbered cx' := by
  refine ⟨?_, ?_⟩
  · rw [ht, List.filterMap_append, h.labels, hl, List.range_succ, List.map_append]
    simp [hr, Context.nextLabel]
  · rw [ht, hn, h.records]
    simp

theorem log (h : Numbered cx) (hr : e.record? = none) : Numbered (cx.log e) :=
  h.event (cx.events_log e) hr rfl rfl

theorem send (h : Numbered cx) (message : Message) (about : Option Concern) :
    Numbered (cx.send message about) :=
  h.event (cx.events_send message about) rfl rfl rfl

theorem openGuard (h : Numbered cx) (key : Key) : Numbered (cx.openGuard key) :=
  h.record (Context.trap_event (cx.events_openGuard key)) rfl rfl rfl

theorem closeGuard (h : Numbered cx) : Numbered cx.closeGuard :=
  h.record (Context.trap_event cx.events_closeGuard) rfl rfl rfl

theorem take (h : Numbered cx) (a : Pending) (rest : List Pending) : Numbered (cx.take a rest) :=
  h.event (cx.events_take a rest) rfl rfl rfl

theorem introduce (h : Numbered cx) : Numbered (cx.introduce slot en).2 :=
  h.introducing (cx.trap_introduce slot en) rfl (cx.labels_introduce slot en)
    (cx.records_introduce slot en)

/-- A deed writes at most one record, and counts it. -/
theorem deed (h : Numbered cx) (hd : Deed cx cx') : Numbered cx' := by
  cases hd with
  | fresh | define => exact h.introducing (Context.trap_write _ _) rfl rfl rfl
  | emit => exact h.record (Context.trap_write _ _) rfl rfl rfl
  | setAssemblyFile | openGenerics => exact h.quiet rfl rfl rfl
  | missingType => exact h.event (cx.events_missingType _) rfl rfl rfl
  | note => exact h.log rfl
  | later => exact h.event (cx.events_enqueue _) rfl rfl rfl

/-- The labels that a trap introduces are distinct. -/
theorem nodup (h : Numbered cx) : (cx.trap.filterMap Record.introduced?).Nodup := by
  rw [h.labels]
  exact List.pairwise_map.2 (List.nodup_range.imp fun hne heq => hne (by simpa using heq))

/-- No two records introduce one label. -/
theorem introduced_unique {r' : Record} {l : Label} (h : Numbered cx) (hr : r ∈ cx.trap)
    (hr' : r' ∈ cx.trap) (hi : r.introduced? = some l) (hi' : r'.introduced? = some l) :
    r = r' := by
  have hpair := List.pairwise_filterMap.1 h.nodup
  have hsymm : Std.Symm fun r r' : Record => ∀ l, r.introduced? = some l →
      ∀ l', r'.introduced? = some l' → l ≠ l' :=
    ⟨fun _ _ hne l hl l' hl' => (hne l' hl' l hl).symm⟩
  by_contra hne
  exact hpair.forall hr hr' hne l hi l hi' rfl

/-- As many labels were given as the trap introduces. -/
theorem countP (h : Numbered cx) : cx.labels = cx.trap.countP (·.introduced?.isSome) := by
  rw [← List.length_filterMap_eq_countP, h.labels, List.length_map, List.length_range]

end Numbered

/-- A trail keeps the counters in agreement with the trap. -/
theorem Trail.numbered (h : Trail w .free o b cx cx') (hn : Numbered cx) : Numbered cx' := by
  induction h with
  | refl => exact hn
  | trans _ _ ih ih' => exact ih' (ih hn)
  | stop _ _ ih => exact ih hn
  | caught _ _ ih => exact ih hn
  | deed h => exact hn.deed h
  | sent | complaint | excused | reported => exact hn.send _ _
  | limit | served => exact hn.log rfl
  | guarded _ _ _ ih => exact (ih (hn.openGuard _)).closeGuard
  | nested _ _ _ ih =>
    exact (ih (hn.event (Context.events_enter _ _) rfl rfl rfl)).quiet rfl rfl rfl
  | introduced _ _ _ ih => exact ih hn.introduce
  | deferred => exact hn.event (Context.events_enqueue _ _) rfl rfl rfl
  | described _ _ ho _ _ ih =>
    obtain rfl := ho
    exact ih (hn.event (Context.events_populating _ _ _) rfl rfl rfl)
  | describedGuarded _ _ _ _ _ ho _ _ ih =>
    obtain rfl := ho
    exact (ih ((hn.openGuard _).event (Context.events_populating _ _ _) rfl rfl rfl)).closeGuard
  | taken _ _ ih => exact ih ((hn.take _ _).log rfl)
  | takenGuarded _ _ _ _ ih => exact (ih (((hn.take _ _).openGuard _).log rfl)).closeGuard

end TrapFacts
