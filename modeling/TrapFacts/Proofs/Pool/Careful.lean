import TrapFacts.Proofs.Pool.Runs

/-! What must not be overwritten stays, unless a unit asked for its target before it was there. -/

namespace TrapFacts

variable {m : Model} {l : Layout} {x : Extractor} {units : List TrapUnit} {t u : FileTree}
  {stages : Nat → Stage} {s : Pool Report} {threads i : Nat} {p : Place} {c : Content}
  {unit : TrapUnit} {w : Worker Report} {report : Report}

theorem FileCall.run_contains (path : Path) (t : FileTree) :
    (FileCall.contains path).run.run t = (t.contains path, t) :=
  rfl

namespace Pool

/-- A unit that has not begun, or that was skipped. -/
def Passive (w : Worker Report) : Prop :=
  w.begun = false ∨ ∃ report, w.task = .done report ∧ report.status = .skipped

/-- No unit is about to replace what is at a place: of those at work, the ones whose targets lead
there have their traps in place. -/
def NonePending (m : Model) (l : Layout) (units : List TrapUnit) (u : FileTree) (p : Place)
    (stages : Nat → Stage) (s : Pool Report) : Prop :=
  ∀ (i : Nat) (unit : TrapUnit) (w : Worker Report), units[i]? = some unit →
    s.workers[i]? = some w → w.isBusy = true → u.LeadsTo (unit.target m l) p →
    ∃ c, stages i = .placed c

namespace Invariant

variable (h : Invariant m l false x units t stages s)

include h

/-- A unit that begins asks for its target, and if it is there, that is all. -/
theorem begins {operation : FileCall} {next : operation.Answer → Task Report}
    (hunit : units[i]? = some unit) (hw : s.workers[i]? = some ⟨.call operation next, false⟩) :
    (operation.run.run s.tree).2 = s.tree ∧
      (s.tree.contains (unit.target m l) = true →
        ∃ report, next (operation.run.run s.tree).1 = .done report ∧ report.status = .skipped) := by
  have hfresh := h.fresh i unit _ hunit hw rfl
  obtain ⟨ask, htask, hskip⟩ := unit.deliveryTask_eq m l false x
  rw [htask] at hfresh
  injection hfresh with hoperation hnext
  subst hoperation
  obtain rfl := eq_of_heq hnext
  rw [FileCall.run_contains]
  refine ⟨rfl, fun hthere => ?_⟩
  rw [hthere, hskip rfl]
  exact ⟨_, rfl, rfl⟩

/-- What is at a target that settles is there for the unit. -/
theorem contains_target (hs : t.Settles (Path.ofString l.directory)) (hr : s.tree.Retains u)
    (hp : s.tree.kind? p ≠ none) (hlead : u.LeadsTo (unit.target m l) p) :
    s.tree.contains (unit.target m l) = true := by
  have hsettles := unit.settles_target (h.retains.settles hs) m
  exact FileTree.contains_of_leadsTo
    (hsettles.leadsTo hr hlead (unit.ending_target m l) hp) hp

/-- What was there before a turn is there after it. -/
theorem turn_stays {operation : FileCall} {next : operation.Answer → Task Report} {begun : Bool}
    {stage' : Stage} (hs : t.Settles (Path.ofString l.directory)) (hunit : units[i]? = some unit)
    (hw : s.workers[i]? = some ⟨.call operation next, begun⟩)
    (hstep : (stages i).Step (unit.target m l) s.tree stage' (operation.run.run s.tree).2)
    (hr : FileTree.Retains (operation.run.run s.tree).2 u)
    (hname : ∀ k above, p ≠ FileTree.temporaryName k :: above)
    (hp : s.tree.kind? p = some (.file c)) (hnone : NonePending m l units u p stages s) :
    FileTree.kind? (operation.run.run s.tree).2 p = some (.file c) := by
  have hholds := h.holds i unit hunit
  have hretains := hstep.retains hholds
  by_cases hlead : u.LeadsTo (unit.target m l) p
  · cases begun with
    | false =>
      rw [(h.begins hunit hw).1]
      exact hp
    | true =>
      obtain ⟨c', hplaced⟩ := hnone i unit _ hunit hw rfl hlead
      have hsettles := unit.settles_target (h.retains.settles hs) m
      rw [← hp]
      refine hstep.unchanged hholds hsettles hr hlead (fun c'' hc => ?_) []
      rw [hplaced] at hstep ⊢
      rw [← hc, hstep.placed_stays]
  · have hdraft : ∀ {stage : Stage} {t' : FileTree}, stage.Holds (unit.target m l) t' →
        stage.draft? ≠ some p := by
      intro stage t' hholds hd
      obtain ⟨-, -, k, above, heq⟩ := hholds.draft hd
      exact hname k above heq
    refine (hstep.file_iff hholds (fun hbefore => hlead ?_) (hdraft hholds)
      (hdraft (hstep.holds hholds))).2 hp
    exact (hretains.trans hr).leadsTo hbefore

/-- A turn of a unit that has not begun or whose trap is in place leaves it so, or it skips it. -/
theorem turn_passive {operation : FileCall} {next : operation.Answer → Task Report} {begun : Bool}
    (hs : t.Settles (Path.ofString l.directory)) (hunit : units[i]? = some unit)
    (hw : s.workers[i]? = some ⟨.call operation next, begun⟩) (hr : s.tree.Retains u)
    (hp : s.tree.kind? p = some (.file c)) (hlead : u.LeadsTo (unit.target m l) p) :
    begun = true ∨ ∃ report, next (operation.run.run s.tree).1 = .done report ∧
      report.status = .skipped := by
  cases begun with
  | true => exact .inl rfl
  | false =>
    have hkind : s.tree.kind? p ≠ none := by
      rw [hp]
      exact Option.some_ne_none _
    exact .inr ((h.begins hunit hw).2 (h.contains_target hs hr hkind hlead))

theorem advance_stays (threads i : Nat) (hs : t.Settles (Path.ofString l.directory))
    (hr : (s.advance threads i).tree.Retains u)
    (hname : ∀ k above, p ≠ FileTree.temporaryName k :: above)
    (hp : s.tree.kind? p = some (.file c)) (hnone : NonePending m l units u p stages s) :
    ∃ stages' : Nat → Stage, Invariant m l false x units t stages' (s.advance threads i) ∧
      (s.advance threads i).tree.kind? p = some (.file c) ∧
      NonePending m l units u p stages' (s.advance threads i) ∧
      ∀ (j : Nat) (unit : TrapUnit) (w : Worker Report), units[j]? = some unit →
        s.workers[j]? = some w → Passive w → u.LeadsTo (unit.target m l) p →
          ∃ w', (s.advance threads i).workers[j]? = some w' ∧ Passive w' := by
  rcases h.advance threads i with
    heq | ⟨unit, operation, next, begun, stage', hunit, hw, -, heq, hstep, hnext⟩
  · rw [heq]
    exact ⟨stages, h, hp, hnone, fun j _ w _ hw hpassive _ => ⟨w, hw, hpassive⟩⟩
  · have hretains := (hstep.retains (h.holds i unit hunit)).trans hr
    have hi : i < s.workers.length := (List.getElem?_eq_some_iff.1 hw).1
    have hturn := fun hlead => h.turn_passive hs hunit hw hretains hp hlead
    rw [heq] at hr hstep hnext ⊢
    refine ⟨_, hnext, h.turn_stays hs hunit hw hstep hr hname hp hnone,
      fun j unit' w' hunit' hw' hbusy hlead => ?_, fun j unit' w' hunit' hw' hpassive hlead => ?_⟩
    · by_cases hj : j = i
      · subst hj
        obtain rfl := Option.some.inj (hunit.symm.trans hunit')
        rw [List.getElem?_set_self hi] at hw'
        obtain rfl := Option.some.inj hw'
        rcases hturn hlead with rfl | ⟨report, hdone, -⟩
        · obtain ⟨c', hplaced⟩ := hnone j unit _ hunit hw rfl hlead
          rw [hplaced] at hstep
          exact ⟨c', by rw [Function.update_self, hstep.placed_stays]⟩
        · rw [hdone] at hbusy
          cases hbusy
      · rw [List.getElem?_set_ne (Ne.symm hj)] at hw'
        rw [Function.update_of_ne hj]
        exact hnone j unit' w' hunit' hw' hbusy hlead
    · by_cases hj : j = i
      · subst hj
        obtain rfl := Option.some.inj (hunit.symm.trans hunit')
        obtain rfl := Option.some.inj (hw.symm.trans hw')
        refine ⟨_, List.getElem?_set_self hi, ?_⟩
        rcases hturn hlead with rfl | hskipped
        · rcases hpassive with hbegun | ⟨report, hdone, -⟩
          · cases hbegun
          · cases hdone
        · exact .inr hskipped
      · exact ⟨w', by rw [List.getElem?_set_ne (Ne.symm hj), hw'], hpassive⟩

/-- What is at a place when no unit is about to replace it stays there, and units that begin later
and whose targets lead there are skipped. -/
theorem run_stays (threads : Nat) (schedule : List Nat)
    (hs : t.Settles (Path.ofString l.directory))
    (hr : (s.run threads schedule).tree.Retains u)
    (hname : ∀ k above, p ≠ FileTree.temporaryName k :: above)
    (hp : s.tree.kind? p = some (.file c)) (hnone : NonePending m l units u p stages s) :
    (s.run threads schedule).tree.kind? p = some (.file c) ∧
      ∀ (j : Nat) (unit : TrapUnit) (w : Worker Report), units[j]? = some unit →
        s.workers[j]? = some w → Passive w → u.LeadsTo (unit.target m l) p →
          ∃ w', (s.run threads schedule).workers[j]? = some w' ∧ Passive w' := by
  induction schedule generalizing s stages with
  | nil => exact ⟨hp, fun j _ w _ hw hpassive _ => ⟨w, hw, hpassive⟩⟩
  | cons i schedule ih =>
    obtain ⟨stages₁, h₁, -⟩ := h.advance_placed threads i
    obtain ⟨-, -, hretains, -⟩ := h₁.run_placed threads schedule
    obtain ⟨stages', h', hp', hnone', hpassive⟩ :=
      h.advance_stays threads i hs (hretains.trans hr) hname hp hnone
    obtain ⟨hstays, hpassive'⟩ := ih h' hr hp' hnone'
    refine ⟨hstays, fun j unit w hunit hw hw' hlead => ?_⟩
    obtain ⟨w', hadvance, hw'⟩ := hpassive j unit w hunit hw hw' hlead
    exact hpassive' j unit w' hunit hadvance hw' hlead

end Invariant

/-- At most one unit is at work, and until its trap is in place nothing is at its target. -/
structure OneByOne (m : Model) (l : Layout) (units : List TrapUnit) (u : FileTree)
    (stages : Nat → Stage) (s : Pool Report) : Prop where
  single : ∀ (i j : Nat) (w w' : Worker Report), s.workers[i]? = some w →
    s.workers[j]? = some w' → w.isBusy = true → w'.isBusy = true → i = j
  vacant : ∀ (i : Nat) (unit : TrapUnit) (w : Worker Report) (p : Place), units[i]? = some unit →
    s.workers[i]? = some w → w.isBusy = true → u.LeadsTo (unit.target m l) p →
    (∃ c, stages i = .placed c) ∨ s.tree.kind? p = none

theorem OneByOne.nonePending (h : OneByOne m l units u stages s)
    (hp : s.tree.kind? p = some (.file c)) : NonePending m l units u p stages s := by
  intro i unit w hunit hw hbusy hlead
  refine (h.vacant i unit w p hunit hw hbusy hlead).resolve_right fun hnone => ?_
  rw [hnone] at hp
  cases hp

/-- Nobody but the unit whose turn it is can be at work. -/
theorem OneByOne.rest (h : OneByOne m l units u stages s) {operation : FileCall}
    {next : operation.Answer → Task Report} {begun : Bool}
    (hw : s.workers[i]? = some ⟨.call operation next, begun⟩)
    (hfree : begun = true ∨ s.hasThread 1 = true) {j : Nat} (hj : j ≠ i)
    (hw' : s.workers[j]? = some w) : w.isBusy = false := by
  by_contra hbusy
  rw [Bool.not_eq_false] at hbusy
  rcases hfree with rfl | hfree
  · exact hj (h.single j i w _ hw' hw hbusy rfl)
  · have hcount : s.workers.countP (·.isBusy) = 0 := by simpa [hasThread] using hfree
    exact List.countP_eq_zero.1 hcount w (List.mem_of_getElem? hw') hbusy

theorem OneByOne.start (tasks : List (Task Report)) :
    OneByOne m l units u stages (Pool.start tasks t) := by
  refine ⟨fun i j w w' hw _ hbusy => ?_, fun i unit w p _ hw hbusy => ?_⟩
  all_goals
    rw [isBusy_of_begun (start_begun hw)] at hbusy
    cases hbusy

namespace Invariant

variable (h : Invariant m l false x units t stages s)

include h

theorem advance_oneByOne (i : Nat) (hs : t.Settles (Path.ofString l.directory))
    (hr : (s.advance 1 i).tree.Retains u) (hone : OneByOne m l units u stages s) :
    ∃ stages' : Nat → Stage, Invariant m l false x units t stages' (s.advance 1 i) ∧
      OneByOne m l units u stages' (s.advance 1 i) := by
  rcases h.advance 1 i with
    heq | ⟨unit, operation, next, begun, stage', hunit, hw, hfree, heq, hstep, hnext⟩
  · rw [heq]
    exact ⟨stages, h, hone⟩
  · have hholds := h.holds i unit hunit
    have hretains := (hstep.retains hholds).trans hr
    have hi : i < s.workers.length := (List.getElem?_eq_some_iff.1 hw).1
    rw [heq] at hr hstep hnext ⊢
    have honly : ∀ (j : Nat) (w : Worker Report),
        (s.workers.set i ⟨next (operation.run.run s.tree).1, true⟩)[j]? = some w →
          w.isBusy = true → j = i := by
      intro j w hj hbusy
      by_contra hne
      rw [List.getElem?_set_ne (Ne.symm hne)] at hj
      rw [hone.rest hw hfree hne hj] at hbusy
      cases hbusy
    refine ⟨_, hnext, fun j k w w' hj hk hbusy hbusy' =>
      (honly j w hj hbusy).trans (honly k w' hk hbusy').symm, ?_⟩
    intro j unit' w p hunit' hj hbusy hlead
    obtain rfl := honly j w hj hbusy
    obtain rfl := Option.some.inj (hunit.symm.trans hunit')
    rw [List.getElem?_set_self hi] at hj
    obtain rfl := Option.some.inj hj
    rw [Function.update_self]
    cases begun with
    | false =>
      obtain ⟨htree, hskip⟩ := h.begins hunit hw
      rw [htree]
      refine .inr ?_
      by_contra hkind
      obtain ⟨report, hdone, -⟩ := hskip (h.contains_target hs hretains hkind hlead)
      rw [hdone] at hbusy
      cases hbusy
    | true =>
      by_cases hstage : ∃ c, stage' = .placed c
      · exact .inl hstage
      · have hnone : s.tree.kind? p = none := by
          refine (hone.vacant j unit _ p hunit hw rfl hlead).resolve_left ?_
          rintro ⟨c, hplaced⟩
          rw [hplaced] at hstep
          exact hstage ⟨c, hstep.placed_stays⟩
        rw [← hnone]
        have hsettles := unit.settles_target (h.retains.settles hs) m
        exact .inr (hstep.unchanged hholds hsettles hr hlead
          (fun c hc => absurd ⟨c, hc⟩ hstage) [])

theorem run_oneByOne (schedule : List Nat) (hs : t.Settles (Path.ofString l.directory))
    (hr : (s.run 1 schedule).tree.Retains u) (hone : OneByOne m l units u stages s) :
    ∃ stages' : Nat → Stage, Invariant m l false x units t stages' (s.run 1 schedule) ∧
      OneByOne m l units u stages' (s.run 1 schedule) := by
  induction schedule generalizing s stages with
  | nil => exact ⟨stages, h, hone⟩
  | cons i schedule ih =>
    obtain ⟨stages₁, h₁, -⟩ := h.advance_placed 1 i
    obtain ⟨-, -, hretains, -⟩ := h₁.run_placed 1 schedule
    obtain ⟨stages', h', hone'⟩ := h.advance_oneByOne i hs (hretains.trans hr) hone
    exact ih h' hr hone'

end Invariant

end Pool

end TrapFacts
