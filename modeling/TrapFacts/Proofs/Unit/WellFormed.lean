import TrapFacts.Proofs.Engine.Numbered
import TrapFacts.Proofs.Engine.Sound
import TrapFacts.Proofs.Unit.Run

/-! The labels of every trap are well formed. -/

namespace TrapFacts

variable {m : Model} {scope : Scope} {x x' : Extractor} {unit : TrapUnit} {e : Extraction}
  {budget : Nat}

/-- An extraction whose labels are introduced in order, once each, and mentioned only after that;
in keys only those that have keys themselves. Its counters agree with its trap. -/
structure WellFormed (e : Extraction) : Prop where
  /-- The records that introduce labels introduce the first, the second and so on. -/
  numbered : e.trap.filterMap Record.introduced? =
    (List.range e.stats.labels).map fun k => ⟨k + 1⟩
  mentions : Scoped e.trap
  fresh : ∀ l, .fresh l ∈ e.trap → ∀ r ∈ e.trap, l ∉ r.keyLabels
  labels : e.stats.labels = e.trap.countP (·.introduced?.isSome)
  records : e.stats.records = e.trap.length

namespace TrapUnit

/-- All labels are introduced before use, in the trap of any unit. -/
theorem finish_labelled (unit : TrapUnit) (m : Model) (scope : Scope) (x : Extractor)
    (budget : Nat) : Labelled m scope (unit.finish m scope x budget).2 := by
  have ht := (runIn_goes unit m scope x budget).trail
  have hrun := ht.labelled (labelled_fresh m scope x) (by simp)
  exact conclude_keeps m _ hrun fun cx message h => h.send message none

/-- Labels are numbered as they are introduced, in the trap of any unit. -/
theorem finish_numbered (unit : TrapUnit) (m : Model) (scope : Scope) (x : Extractor)
    (budget : Nat) : Numbered (unit.finish m scope x budget).2 := by
  have ht := (runIn_goes unit m scope x budget).trail
  have hrun := ht.free.numbered (numbered_fresh x)
  exact conclude_keeps m _ hrun fun cx message h => h.send message none

/-- Everyone who was created is accounted for, at the end of any unit. -/
theorem finish_sound (unit : TrapUnit) (m : Model) (scope : Scope) (x : Extractor)
    (budget : Nat) : Sound [] (unit.finish m scope x budget).2 := by
  have ht := (runIn_goes unit m scope x budget).trail
  have hrun : Sound [] _ := ht.free.sound ⟨orderly_fresh x, accounted_fresh x⟩
  exact conclude_keeps m _ hrun fun cx message h => h.send message none

theorem finish_founded (unit : TrapUnit) (m : Model) (scope : Scope) (x : Extractor)
    (budget : Nat) :
    ScopedUnit.Founded ⟨m, scope, unit, fun _ => True⟩ (unit.finish m scope x budget).2 := by
  let u : ScopedUnit := ⟨m, scope, unit, fun _ => True⟩
  have ht := (u.runIn_goes (closed_univ m scope unit) x budget).trail
  have hrun := ht.founded (u.founded_fresh x) (by simp)
  exact conclude_keeps m _ hrun fun cx message h => h.send message none

theorem wellFormed_of_context {cx : Context} (name : String) (status : Status) (discarded : Nat)
    (hl : Labelled m scope cx) (hn : Numbered cx) :
    WellFormed { name, status, stats := cx.stats, trap := cx.trap, discarded } where
  numbered := hn.labels
  mentions := hl.mentions
  fresh l hf r hr hk := by
    obtain ⟨before, after, hsplit⟩ := List.append_of_mem (show r ∈ cx.trap from hr)
    obtain ⟨key, hd⟩ := (hl.mentions before r after hsplit).1 l hk
    have hdefine : .define l key ∈ cx.trap := by
      rw [hsplit]
      exact List.mem_append_left _ hd
    cases hn.introduced_unique hf hdefine rfl rfl
  labels := hn.countP
  records := hn.records

/-- Whatever the model lacks and however the unit ends, its extraction is well formed. -/
theorem extract_wellFormed (h : unit.extract x m budget = .ok (e, x')) : WellFormed e := by
  unfold extract at h
  split at h
  · cases h
  · obtain ⟨rfl, -⟩ := Prod.mk.inj (Except.ok.inj h)
    exact wellFormed_of_context _ _ _ (finish_labelled unit m _ x budget)
      (finish_numbered unit m _ x budget)

theorem extract_of_scope (h : unit.scope x m = .ok scope) :
    ∃ e x', unit.extract x m = .ok (e, x') := by
  unfold extract
  rw [h]
  exact ⟨_, _, rfl⟩

/-- A file whose only member is missing from the model. -/
theorem extract_wellFormed_dangling : ∃ e x',
    (source ⟨0⟩).extract {} { trees := [{ path := "a.cs", members := [⟨7⟩] }] } = .ok (e, x') ∧
      WellFormed e := by
  have hscope : (source ⟨0⟩).scope {} { trees := [{ path := "a.cs", members := [⟨7⟩] }] } =
      .ok (.source ⟨0⟩ "a.cs") := rfl
  obtain ⟨e, x', h⟩ := extract_of_scope hscope
  exact ⟨e, x', h, extract_wellFormed h⟩

end TrapUnit

end TrapFacts
