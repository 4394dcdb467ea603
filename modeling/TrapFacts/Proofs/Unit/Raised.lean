import Mathlib
import TrapFacts.Proofs.Engine.Raised
import TrapFacts.Proofs.Unit.Discreet
import TrapFacts.Proofs.Unit.Placed

/-! A higher limit lets a unit go on where it would have been aborted, and changes nothing else. -/

namespace TrapFacts

variable {m : Model} {scope : Scope} {x : Extractor} {limit budget : Nat} {unit : TrapUnit}
  {e : Extraction} {trap : List Record}

/-- What an extraction under a higher limit is to the one under the lower limit: the same, unless
that one was aborted. Then it begins with what that one wrote before it closed its guards. -/
structure Prolongs (e e' : Extraction) : Prop where
  extracted : e.status = .extracted → e' = e
  aborted : ∀ reason, e.status = .aborted reason → ∃ before,
    e.trap = before ++ List.replicate (openKeys [] before).length .pop ∧ before <+: e'.trap

theorem Prolongs.of_closed (h : openKeys [] e.trap = []) : Prolongs e e := by
  refine ⟨fun _ => rfl, fun _ _ => ⟨e.trap, ?_, List.prefix_rfl⟩⟩
  rw [h]
  exact (List.append_nil _).symm

/-- Moments that only close guards write nothing but that. -/
theorem written_pops {ms : List Moment} (h : ∀ later ∈ ms, later.event = .wrote .pop) :
    written ms = List.replicate ms.length .pop := by
  induction ms with
  | nil => rfl
  | cons now ms ih =>
    have hnow := h now List.mem_cons_self
    have hrest := ih fun later hl => h later (List.mem_cons_of_mem _ hl)
    rw [written_cons, hrest, List.length_cons, List.replicate_succ]
    simp [written, hnow, Event.record?]

namespace TrapUnit

theorem conclude_raise (name : String) (o : Outcome Unit) (cx : Context) :
    conclude m name ⟨o, cx.raise limit⟩ =
      ((conclude m name ⟨o, cx⟩).1, (conclude m name ⟨o, cx⟩).2.raise limit) := by
  cases o with
  | done | exhausted => rfl
  | failed e =>
    unfold conclude
    dsimp only
    split <;> rfl

/-- What a conclusion says is not written. -/
theorem trap_conclude (name : String) (r : Reply Unit) :
    (conclude m name r).2.trap = r.context.trap := by
  refine conclude_keeps (P := fun cx => cx.trap = r.context.trap) m name rfl fun cx message h => ?_
  rw [Context.trap_event (cx.events_send message none), h]
  exact List.append_nil _

/-- A unit follows the one that is extracted under a higher limit. -/
theorem runIn_follows (unit : TrapUnit) (m : Model) (scope : Scope) (budget : Nat)
    (h : x.config.maxRecursionDepth ≤ limit) :
    Follows limit (unit.runIn m scope x budget) (unit.runIn m scope (x.raise limit) budget) := by
  have hprogram : (unit.program m scope).Discreet true := program_discreet unit
  have hpatient : Context.Patient { extractor := x } := by simp [Context.Patient]
  exact World.run_follows (World.ofModel_discreet m scope) budget hprogram hpatient h

/-- What a unit left when it met its limit: the guards that were open are closed. -/
theorem runIn_cut (h : (unit.runIn m scope x budget).context.Cut trap) : ∃ before,
    (unit.runIn m scope x budget).context.trap =
      before ++ List.replicate (openKeys [] before).length .pop ∧ before <+: trap := by
  obtain ⟨past, now, closing, hm, hlimit, hpops, hguards, hwritten⟩ := h
  let w : World := .ofModel m scope
  have hclosed := (run_free (w := w) budget (unit.program m scope) { extractor := x }).frame.guards
  obtain ⟨during, hsteady⟩ := run_steady w budget (unit.program m scope) { extractor := x }
  obtain rfl : during = past ++ now :: closing := hsteady.moments.symm.trans hm
  have hnow : written [now] = [] := by simp [written, hlimit, Event.record?]
  have hopen : now.guards = openKeys [] (written past) := by
    have hkeys := hsteady.inStep.now.2
    rw [written_append, hnow, List.append_nil] at hkeys
    exact hkeys
  refine ⟨written past, ?_, hwritten⟩
  calc (unit.runIn m scope x budget).context.trap
      = written (past ++ now :: closing) := congrArg written hm
    _ = written past ++ written closing := by
      rw [written_append, written_cons, hnow, List.nil_append]
    _ = written past ++ List.replicate closing.length .pop := by rw [written_pops hpops]
    _ = written past ++ List.replicate (openKeys [] (written past)).length .pop := by
      rw [← hopen, hguards, show (unit.runIn m scope x budget).context.guards = [] from hclosed]
      rfl

/-- No guard is open at the end of a unit's trap. -/
theorem openKeys_finish (unit : TrapUnit) (m : Model) (scope : Scope) (x : Extractor)
    (budget : Nat) : openKeys [] (unit.finish m scope x budget).2.trap = [] := by
  obtain ⟨_, during, hs⟩ := finish_steady unit m scope x budget
  have htrap : (unit.finish m scope x budget).2.trap = written during := congrArg written hs.moments
  rw [htrap]
  exact hs.balanced.openKeys_eq []

theorem scope_raise (unit : TrapUnit) (m : Model) (x : Extractor) (limit : Nat) :
    unit.scope (x.raise limit) m = unit.scope x m := by
  cases unit <;> rfl

theorem extract_finish (hs : unit.scope x m = .ok scope) (budget : Nat) :
    unit.extract x m budget = .ok (
      { name := unit.name m
        status := (unit.finish m scope x budget).1
        stats := (unit.finish m scope x budget).2.stats
        trap := (unit.finish m scope x budget).2.trap
        discarded := (unit.finish m scope x budget).2.queue.length },
      (unit.finish m scope x budget).2.extractor) := by
  unfold extract
  rw [hs]

/-- A run that does not meet its limit comes out the same under a higher one. -/
theorem finish_step (ho : (unit.runIn m scope (x.raise limit) budget).outcome =
      (unit.runIn m scope x budget).outcome)
    (hc : (unit.runIn m scope (x.raise limit) budget).context =
      (unit.runIn m scope x budget).context.raise limit) :
    unit.finish m scope (x.raise limit) budget =
      ((unit.finish m scope x budget).1, (unit.finish m scope x budget).2.raise limit) := by
  unfold finish
  rw [← conclude_raise, ← ho, ← hc]

theorem finish_aborted {f : Failure} (hf : (unit.runIn m scope x budget).outcome = .failed f)
    (hfatal : f.isFatal = true) : (unit.finish m scope x budget).1 = .aborted f.message := by
  unfold finish
  generalize unit.runIn m scope x budget = r at hf ⊢
  obtain ⟨o, cx⟩ := r
  cases hf
  exact congrArg Prod.fst (if_pos hfatal)

/-- A unit that a higher limit leaves more room comes out the same, or was aborted where it met the
lower limit. -/
theorem extract_raised (unit : TrapUnit) (m : Model) (budget : Nat)
    (h : x.config.maxRecursionDepth ≤ limit) :
    (∀ f, unit.extract x m budget = .error f →
      unit.extract (x.raise limit) m budget = .error f) ∧
    ∀ e y, unit.extract x m budget = .ok (e, y) →
      ∃ e' y', unit.extract (x.raise limit) m budget = .ok (e', y') ∧ Prolongs e e' := by
  cases hscope : unit.scope x m with
  | error f =>
    have hlow : unit.extract x m budget = .error f := by
      unfold extract
      rw [hscope]
    have hhigh : unit.extract (x.raise limit) m budget = .error f := by
      unfold extract
      rw [scope_raise, hscope]
    rw [hlow, hhigh]
    refine ⟨fun _ hf => hf, fun e y he => ?_⟩
    cases he
  | ok scope =>
    rw [extract_finish hscope budget,
      extract_finish ((scope_raise unit m x limit).trans hscope) budget]
    refine ⟨fun f hf => ?_, fun e y he => ?_⟩
    · cases hf
    obtain ⟨rfl, -⟩ := Prod.mk.inj (Except.ok.inj he)
    refine ⟨_, _, rfl, ?_⟩
    cases runIn_follows unit m scope budget h with
    | step ho hc _ =>
      rw [finish_step ho hc]
      exact .of_closed (openKeys_finish unit m scope x budget)
    | cut hfailed hcut =>
      obtain ⟨f, hf, hfatal⟩ := hfailed
      refine ⟨fun hextracted => ?_, fun reason _ => ?_⟩
      · cases (finish_aborted hf hfatal).symm.trans hextracted
      · obtain ⟨before, htrap, hbefore⟩ := runIn_cut hcut
        refine ⟨before, (trap_conclude _ _).trans htrap, ?_⟩
        have hhigh : (unit.finish m scope (x.raise limit) budget).2.trap =
            (unit.runIn m scope (x.raise limit) budget).context.trap := trap_conclude _ _
        rw [hhigh]
        exact hbefore

section

-- Evaluation compares keys by their literals, not byte by byte.
attribute [local irreducible] String.decEq

/-- A method that returns a pointer to a pointer to its class. It is met in the guard of the class,
where the lower limit leaves no room for the inner pointer. -/
theorem extract_raised_pointer :
    let m : Model := {
      trees := [{ path := "a.cs", members := [⟨0⟩] }]
      symbols := [
        { name := "C", kind := .classType, locations := [⟨⟨0⟩, ⟨1, 1, 4, 2⟩⟩], members := [⟨1⟩] },
        { name := "f", kind := .method, containingType := some ⟨0⟩, returnType := some ⟨3⟩,
          locations := [⟨⟨0⟩, ⟨2, 3, 3, 4⟩⟩] },
        { name := "", kind := .pointer, pointedAt := some ⟨0⟩ },
        { name := "", kind := .pointer, pointedAt := some ⟨2⟩ }] }
    let x : Extractor := { config := { maxRecursionDepth := 3 } }
    x.config.maxRecursionDepth ≤ 4 ∧ ∃ e y e' y',
      (source ⟨0⟩).extract x m m.drainBudget = .ok (e, y) ∧
      (source ⟨0⟩).extract (x.raise 4) m m.drainBudget = .ok (e', y') ∧
      Prolongs e e' ∧ e.status = .aborted (Failure.recursionLimit 3).message ∧
      e.trap.getLast? = some .pop ∧ e'.status = .extracted := by
  intro m x
  have hlimit : x.config.maxRecursionDepth ≤ 4 := by decide
  have hscope : (source ⟨0⟩).scope x m = .ok (.source ⟨0⟩ "a.cs") := rfl
  have hscope' : (source ⟨0⟩).scope (x.raise 4) m = .ok (.source ⟨0⟩ "a.cs") := rfl
  have hlow := extract_finish hscope m.drainBudget
  have hhigh := extract_finish hscope' m.drainBudget
  obtain ⟨e', y', he', hprolongs⟩ :=
    (extract_raised (source ⟨0⟩) m m.drainBudget hlimit).2 _ _ hlow
  obtain ⟨rfl, rfl⟩ := Prod.mk.inj (Except.ok.inj (hhigh.symm.trans he'))
  have houtcome : ((source ⟨0⟩).runIn m (.source ⟨0⟩ "a.cs") x m.drainBudget).outcome =
      .failed (.recursionLimit 3) := by cbv
  have hlast : ((source ⟨0⟩).runIn m (.source ⟨0⟩ "a.cs") x m.drainBudget).context.trap.getLast? =
      some .pop := by cbv
  have hextracted : ((source ⟨0⟩).finish m (.source ⟨0⟩ "a.cs") (x.raise 4) m.drainBudget).1 =
      .extracted := by cbv
  refine ⟨hlimit, _, _, _, _, hlow, hhigh, hprolongs, finish_aborted houtcome rfl, ?_, hextracted⟩
  exact (congrArg List.getLast? (trap_conclude _ _)).trans hlast

end

end TrapUnit

end TrapFacts
