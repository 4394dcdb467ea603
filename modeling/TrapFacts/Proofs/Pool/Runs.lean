import Mathlib.Logic.Function.Basic
import TrapFacts.Proofs.Pool.Tasks

/-! What stays true of the files while the units in a pool take turns. -/

namespace TrapFacts

namespace Pool

variable {α : Type} {threads i : Nat} {s : Pool α} {w : Worker α} {r : α}

/-- A turn is one operation of a worker that was begun or finds a thread, or nothing at all. -/
theorem advance_cases (threads : Nat) (s : Pool α) (i : Nat) :
    s.advance threads i = s ∨ ∃ operation next begun,
      s.workers[i]? = some ⟨.call operation next, begun⟩ ∧
      (begun = true ∨ s.hasThread threads = true) ∧
      s.advance threads i =
        { workers := s.workers.set i ⟨next (operation.run.run s.tree).1, true⟩
          tree := (operation.run.run s.tree).2 } := by
  unfold advance
  split
  · next operation next begun hw =>
    split
    · next hfree =>
      refine .inr ⟨operation, next, begun, hw, by simpa using hfree, rfl⟩
    · exact .inl rfl
  · exact .inl rfl

theorem start_begun {tasks : List (Task α)} {tree : FileTree}
    (hw : (start tasks tree).workers[i]? = some w) : w.begun = false := by
  simp only [start, List.getElem?_map, Option.map_eq_some_iff] at hw
  obtain ⟨task, -, rfl⟩ := hw
  rfl

theorem isBusy_of_begun (hw : w.begun = false) : w.isBusy = false := by
  simp [Worker.isBusy, hw]

theorem run_append (before after : List Nat) (s : Pool α) :
    run threads (before ++ after) s = run threads after (run threads before s) :=
  List.foldl_append

theorem run_cons (i : Nat) (schedule : List Nat) (s : Pool α) :
    run threads (i :: schedule) s = run threads schedule (s.advance threads i) :=
  rfl

theorem results?_eq_some {rs : List α} :
    s.results? = some rs ↔ s.workers.map (·.task.result?) = rs.map some := by
  unfold results?
  induction s.workers generalizing rs with
  | nil => cases rs <;> simp
  | cons w ws ih =>
    rw [List.mapM_cons, List.map_cons]
    cases hw : w.task.result? with
    | none => cases rs <;> simp
    | some r =>
      cases rs with
      | nil => simp [Option.bind_eq_some_iff]
      | cons r' rs =>
        simp [← ih, Option.bind_eq_some_iff, and_comm]

/-- What came out of a task is what came out when all are done. -/
theorem done_of_results {rs : List α} (h : s.results? = some rs) (hw : s.workers[i]? = some w) :
    ∃ r, rs[i]? = some r ∧ w.task = .done r := by
  have hi := congrArg (·[i]?) (results?_eq_some.1 h)
  simp only [List.getElem?_map, hw, Option.map_some] at hi
  cases hr : rs[i]? with
  | none => simp [hr] at hi
  | some r =>
    refine ⟨r, rfl, ?_⟩
    rw [hr, Option.map_some, Option.some.injEq] at hi
    cases htask : w.task with
    | done a =>
      rw [htask] at hi
      rw [Option.some.inj hi]
    | call operation next =>
      rw [htask] at hi
      cases hi

end Pool

variable {m : Model} {l : Layout} {overwrite : Bool} {x : Extractor} {units : List TrapUnit}
  {t u : FileTree} {stages : Nat → Stage} {s : Pool Report} {threads i : Nat} {p : Place}
  {c : Content} {unit : TrapUnit} {w : Worker Report}

/-- Units in a pool that keep to their stages. Apart from their drafts they have changed no files
but those that targets lead to. -/
structure Pool.Invariant (m : Model) (l : Layout) (overwrite : Bool) (x : Extractor)
    (units : List TrapUnit) (t : FileTree) (stages : Nat → Stage) (s : Pool Report) : Prop where
  length : s.workers.length = units.length
  conforms : ∀ (i : Nat) (unit : TrapUnit) (w : Worker Report), units[i]? = some unit →
    s.workers[i]? = some w → w.task.Conforms (unit.target m l) (unit.Ends m l x) (stages i)
  fresh : ∀ (i : Nat) (unit : TrapUnit) (w : Worker Report), units[i]? = some unit →
    s.workers[i]? = some w → w.begun = false → w.task = unit.deliveryTask m l overwrite x
  holds : ∀ i unit, units[i]? = some unit → (stages i).Holds (unit.target m l) s.tree
  beyond : ∀ i, units[i]? = none → stages i = .empty
  apart : ∀ i j p, (stages i).draft? = some p → (stages j).draft? = some p → i = j
  retains : t.Retains s.tree
  drafts : ∀ i p c, (stages i).draft? = some p → t.kind? p ≠ some (.file c)
  files : ∀ p, (∀ unit ∈ units, ¬ s.tree.LeadsTo (unit.target m l) p) →
    (∀ i, (stages i).draft? ≠ some p) →
    ∀ c, s.tree.kind? p = some (.file c) ↔ t.kind? p = some (.file c)

namespace Pool.Invariant

theorem start (m : Model) (l : Layout) (overwrite : Bool) (x : Extractor) (units : List TrapUnit)
    (t : FileTree) : Invariant m l overwrite x units t (fun _ => .empty)
      (Pool.start (units.map fun unit => unit.deliveryTask m l overwrite x) t) := by
  have hworker : ∀ (i : Nat) (unit : TrapUnit) (w : Worker Report), units[i]? = some unit →
      (Pool.start (units.map fun unit => unit.deliveryTask m l overwrite x) t).workers[i]? =
        some w → w.task = unit.deliveryTask m l overwrite x := by
    intro i unit w hunit hw
    simp only [Pool.start, List.getElem?_map, hunit, Option.map_some, Option.some.injEq] at hw
    rw [← hw]
  refine {
    length := by simp [Pool.start]
    conforms := fun i unit w hunit hw => ?_
    fresh := fun i unit w hunit hw _ => hworker i unit w hunit hw
    holds := fun _ _ _ => trivial
    beyond := fun _ _ => rfl
    apart := by simp [Stage.draft?]
    retains := .refl t
    drafts := by simp [Stage.draft?]
    files := fun _ _ _ _ => .rfl }
  rw [hworker i unit w hunit hw]
  exact unit.deliveryTask_conforms m l overwrite x

variable (h : Invariant m l overwrite x units t stages s)

include h

theorem unit_of_worker (hw : s.workers[i]? = some w) : ∃ unit, units[i]? = some unit := by
  obtain ⟨hi, -⟩ := List.getElem?_eq_some_iff.1 hw
  exact ⟨_, List.getElem?_eq_getElem (h.length ▸ hi)⟩

theorem unit_of_draft (hd : (stages i).draft? = some p) : ∃ unit, units[i]? = some unit := by
  cases hunit : units[i]? with
  | some unit => exact ⟨unit, rfl⟩
  | none =>
    rw [h.beyond i hunit] at hd
    cases hd

theorem file_of_draft (hd : (stages i).draft? = some p) : ∃ c, s.tree.kind? p = some (.file c) ∧
    ∃ k above, p = FileTree.temporaryName k :: above := by
  obtain ⟨unit, hunit⟩ := h.unit_of_draft hd
  exact (h.holds i unit hunit).draft hd

/-- A step of one unit keeps up what holds of all. -/
theorem step {operation : FileCall} {next : operation.Answer → Task Report} {begun : Bool}
    {stage' : Stage} (hunit : units[i]? = some unit)
    (hw : s.workers[i]? = some ⟨.call operation next, begun⟩)
    (hc : (next (operation.run.run s.tree).1).Conforms (unit.target m l) (unit.Ends m l x) stage')
    (hs : (stages i).Step (unit.target m l) s.tree stage' (operation.run.run s.tree).2) :
    Invariant m l overwrite x units t (Function.update stages i stage')
      { workers := s.workers.set i ⟨next (operation.run.run s.tree).1, true⟩
        tree := (operation.run.run s.tree).2 } := by
  have hholds := h.holds i unit hunit
  have hretains := hs.retains hholds
  have hi : i < s.workers.length := (List.getElem?_eq_some_iff.1 hw).1
  generalize next (operation.run.run s.tree).1 = task at hc ⊢
  generalize (operation.run.run s.tree).2 = t' at hs hretains ⊢
  have hsame : (s.workers.set i ⟨task, true⟩)[i]? = some ⟨task, true⟩ :=
    List.getElem?_set_self hi
  have hother : ∀ j, j ≠ i → (s.workers.set i ⟨task, true⟩)[j]? = s.workers[j]? :=
    fun j hj => List.getElem?_set_ne hj.symm
  -- A draft is the unit's own, or it is new, or another unit's, whose place is not free.
  have hnew : ∀ j p, j ≠ i → (stages j).draft? = some p → stage'.draft? ≠ some p := by
    intro j p hj hd hd'
    rcases hs.draft_new hholds hd' with hown | hfree
    · exact hj (h.apart j i p hd hown)
    · obtain ⟨c, hfile, -⟩ := h.file_of_draft hd
      rw [hfree] at hfile
      cases hfile
  refine {
    length := by simpa using h.length
    conforms := fun j unit' w hunit' hw' => ?_
    fresh := fun j unit' w hunit' hw' hbegun => ?_
    holds := fun j unit' hunit' => ?_
    beyond := fun j hj => ?_
    apart := fun j k p hj hk => ?_
    retains := h.retains.trans hretains
    drafts := fun j p c hd => ?_
    files := fun p hp hfree c => ?_ }
  · by_cases hj : j = i
    · subst hj
      rw [hsame] at hw'
      obtain rfl := Option.some.inj (hunit.symm.trans hunit')
      rwa [← Option.some.inj hw', Function.update_self]
    · rw [hother j hj] at hw'
      rw [Function.update_of_ne hj]
      exact h.conforms j unit' w hunit' hw'
  · by_cases hj : j = i
    · subst hj
      rw [hsame] at hw'
      rw [← Option.some.inj hw'] at hbegun
      cases hbegun
    · rw [hother j hj] at hw'
      exact h.fresh j unit' w hunit' hw' hbegun
  · by_cases hj : j = i
    · subst hj
      obtain rfl := Option.some.inj (hunit.symm.trans hunit')
      rw [Function.update_self]
      exact hs.holds hholds
    · rw [Function.update_of_ne hj]
      have hholds' := h.holds j unit' hunit'
      cases hstage : stages j with
      | empty | placed => trivial
      | drafted q c =>
        have hd : (stages j).draft? = some q := by rw [hstage]; rfl
        rw [hstage] at hholds'
        obtain ⟨hfile, k, place, rfl, hplace⟩ := hholds'
        refine ⟨?_, k, place, rfl, hretains.leadsTo hplace⟩
        have hown : (stages i).draft? ≠ some (FileTree.temporaryName k :: place) := fun hown =>
          hj (h.apart j i _ hd hown)
        exact (hs.file_iff hholds (unit.not_leadsTo_temporary k place) hown
          (hnew j _ hj hd)).2 hfile
  · have hne : j ≠ i := by
      rintro rfl
      rw [hunit] at hj
      cases hj
    rw [Function.update_of_ne hne]
    exact h.beyond j hj
  · by_cases hji : j = i
    · subst hji
      rw [Function.update_self] at hj
      by_contra hne
      rw [Function.update_of_ne (Ne.symm hne)] at hk
      exact hnew k p (Ne.symm hne) hk hj
    · by_cases hki : k = i
      · subst hki
        rw [Function.update_self] at hk
        rw [Function.update_of_ne hji] at hj
        exact absurd hk (hnew j p hji hj)
      · rw [Function.update_of_ne hji] at hj
        rw [Function.update_of_ne hki] at hk
        exact h.apart j k p hj hk
  · by_cases hj : j = i
    · subst hj
      rw [Function.update_self] at hd
      rcases hs.draft_new hholds hd with hown | hvacant
      · exact h.drafts j p c hown
      · -- Nothing was there, so neither was a file from before.
        obtain ⟨-, -, k, above, rfl⟩ := (hs.holds hholds).draft hd
        have hnone : ∀ j, (stages j).draft? ≠ some (FileTree.temporaryName k :: above) := by
          intro j hd
          obtain ⟨c, hfile, -⟩ := h.file_of_draft hd
          rw [hvacant] at hfile
          cases hfile
        rw [ne_eq, ← h.files _ (fun unit _ => unit.not_leadsTo_temporary k above) hnone c, hvacant]
        rintro ⟨⟩
    · rw [Function.update_of_ne hj] at hd
      exact h.drafts j p c hd
  · have hbefore : ∀ unit ∈ units, ¬ s.tree.LeadsTo (unit.target m l) p := fun unit hmem hlead =>
      hp unit hmem (hretains.leadsTo hlead)
    by_cases hown : (stages i).draft? = some p
    · have hgone : t'.kind? p = none := by
        refine hs.draft_gone hholds hown fun hd => hfree i ?_
        rwa [Function.update_self]
      rw [hgone]
      exact ⟨by rintro ⟨⟩, fun hfile => absurd hfile (h.drafts i p c hown)⟩
    · have hstage' : stage'.draft? ≠ some p := fun hd => hfree i (by rwa [Function.update_self])
      have hnone : ∀ j, (stages j).draft? ≠ some p := by
        intro j hd
        by_cases hj : j = i
        · exact hown (hj ▸ hd)
        · exact hfree j (by rwa [Function.update_of_ne hj])
      have hlead := hbefore unit (List.mem_of_getElem? hunit)
      exact (hs.file_iff hholds hlead hown hstage').trans (h.files p hbefore hnone c)

/-- A turn is a step of a unit, or nothing happens. -/
theorem advance (threads i : Nat) : s.advance threads i = s ∨
    ∃ unit operation next begun stage', units[i]? = some unit ∧
      s.workers[i]? = some ⟨.call operation next, begun⟩ ∧
      (begun = true ∨ s.hasThread threads = true) ∧
      s.advance threads i =
        { workers := s.workers.set i ⟨next (operation.run.run s.tree).1, true⟩
          tree := (operation.run.run s.tree).2 } ∧
      (stages i).Step (unit.target m l) s.tree stage' (s.advance threads i).tree ∧
      Invariant m l overwrite x units t (Function.update stages i stage')
        (s.advance threads i) := by
  rcases Pool.advance_cases threads s i with
    heq | ⟨operation, next, begun, hw, hfree, heq⟩
  · exact .inl heq
  · obtain ⟨unit, hunit⟩ := h.unit_of_worker hw
    obtain ⟨stage', hc, hs⟩ := (h.conforms i unit _ hunit hw).step (h.holds i unit hunit)
    refine .inr ⟨unit, operation, next, begun, stage', hunit, hw, hfree, heq, ?_⟩
    rw [heq]
    exact ⟨hs, h.step hunit hw hc hs⟩

/-- A trap that is in place after a turn was put there by it, or it was there before. -/
theorem advance_placed (threads i : Nat) : ∃ stages' : Nat → Stage,
    Invariant m l overwrite x units t stages' (s.advance threads i) ∧
      s.tree.Retains (s.advance threads i).tree ∧
      (∀ j c, stages j = .placed c → stages' j = .placed c) ∧
      ∀ j unit c, units[j]? = some unit → stages' j = .placed c → stages j = .placed c ∨
        j = i ∧ ∃ place, (s.advance threads i).tree.LeadsTo (unit.target m l) place ∧
          (s.advance threads i).tree.kind? place = some (.file c) := by
  rcases h.advance threads i with
    heq | ⟨unit, operation, next, begun, stage', hunit, -, -, -, hs, hnext⟩
  · rw [heq]
    exact ⟨stages, h, .refl s.tree, fun _ _ => id, fun _ _ _ _ => .inl⟩
  · have hholds := h.holds i unit hunit
    refine ⟨_, hnext, hs.retains hholds, fun j c hj => ?_, fun j unit' c hunit' hj => ?_⟩
    · by_cases hji : j = i
      · subst hji
        rw [hj] at hs
        rw [Function.update_self, hs.placed_stays]
      · rw [Function.update_of_ne hji, hj]
    · by_cases hji : j = i
      · subst hji
        obtain rfl := Option.some.inj (hunit.symm.trans hunit')
        rw [Function.update_self] at hj
        exact (hs.placed_new hholds hj).imp_right fun hplace => ⟨rfl, hplace⟩
      · rw [Function.update_of_ne hji] at hj
        exact .inl hj

/-- A trap that is in place after a run was put there in some turn, or it was there before. -/
theorem run_placed (threads : Nat) (schedule : List Nat) : ∃ stages' : Nat → Stage,
    Invariant m l overwrite x units t stages' (s.run threads schedule) ∧
      s.tree.Retains (s.run threads schedule).tree ∧
      (∀ j c, stages j = .placed c → stages' j = .placed c) ∧
      ∀ j unit c, units[j]? = some unit → stages' j = .placed c → stages j = .placed c ∨
        ∃ before after place, schedule = before ++ j :: after ∧
          (s.run threads (before ++ [j])).tree.LeadsTo (unit.target m l) place ∧
          (s.run threads (before ++ [j])).tree.kind? place = some (.file c) := by
  induction schedule generalizing s stages with
  | nil => exact ⟨stages, h, .refl s.tree, fun _ _ => id, fun _ _ _ _ => .inl⟩
  | cons i schedule ih =>
    obtain ⟨stages₁, h₁, hretains, hplaced, hnew⟩ := h.advance_placed threads i
    obtain ⟨stages', h', hretains', hplaced', hnew'⟩ := ih h₁
    refine ⟨stages', h', hretains.trans hretains', fun j c hj => hplaced' j c (hplaced j c hj),
      fun j unit c hunit hj => ?_⟩
    rcases hnew' j unit c hunit hj with hj | ⟨before, after, place, rfl, hplace⟩
    · rcases hnew j unit c hunit hj with hj | ⟨rfl, place, hplace⟩
      · exact .inl hj
      · exact .inr ⟨[], schedule, place, rfl, hplace⟩
    · exact .inr ⟨i :: before, after, place, rfl, hplace⟩

/-- In a turn a unit puts its trap in place, or it leaves its target as it was. -/
theorem turn {after : List Nat} {report : Report} (hunit : units[i]? = some unit)
    (hsettles : t.Settles (unit.target m l))
    (hw : (run threads after (s.advance threads i)).workers[i]? = some w)
    (hreport : w.task = .done report) :
    (∃ c place, unit.Ends m l x (.placed c) report ∧
      (s.advance threads i).tree.LeadsTo (unit.target m l) place ∧
      (s.advance threads i).tree.kind? place = some (.file c)) ∨
    ∀ p, (run threads after (s.advance threads i)).tree.LeadsTo (unit.target m l) p → ∀ above,
      (s.advance threads i).tree.kind? (above ++ p) = s.tree.kind? (above ++ p) := by
  rcases h.advance threads i with
    heq | ⟨unit', operation, next, begun, stage', hunit', hcall, -, -, hs, hnext⟩
  · refine .inr fun p hp above => ?_
    rw [heq]
  · obtain rfl := Option.some.inj (hunit.symm.trans hunit')
    have hholds := h.holds i unit hunit
    obtain ⟨stages', h', hretains, hplaced, -⟩ := hnext.run_placed threads after
    by_cases hstage : ∃ c, stage' = .placed c ∧ stages i ≠ .placed c
    · obtain ⟨c, rfl, hbefore⟩ := hstage
      have hconforms := h'.conforms i unit w hunit hw
      rw [hreport, hplaced i c (Function.update_self ..)] at hconforms
      obtain ⟨place, hplace, hfile⟩ := (hs.placed_new hholds rfl).resolve_left hbefore
      exact .inl ⟨c, place, hconforms, hplace, hfile⟩
    · refine .inr fun p hp above => ?_
      refine hs.unchanged hholds (h.retains.settles hsettles) hretains hp (fun c hc => ?_) above
      by_contra hne
      exact hstage ⟨c, hc, hne⟩

end Pool.Invariant

end TrapFacts
