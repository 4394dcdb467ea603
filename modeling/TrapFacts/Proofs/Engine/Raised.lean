import TrapFacts.Proofs.Engine.Course
import TrapFacts.Proofs.Engine.Guards
import TrapFacts.Proofs.Engine.Near

/-! Runs under a higher limit. -/

namespace TrapFacts

def Extractor.raise (x : Extractor) (limit : Nat) : Extractor :=
  { x with config := { x.config with maxRecursionDepth := limit } }

/-- The same state under another limit. -/
def Context.raise (cx : Context) (limit : Nat) : Context :=
  { cx with extractor := cx.extractor.raise limit }

/-- Queued work that cannot tell whether errors of the model are tolerated. -/
def Work.Discreet : Work → Prop
  | .program _ body => body.Discreet true
  | .population _ _ body => body.Discreet true

variable {α β : Type} {w : World} {limit : Nat} {last : Bool} {cx cx' : Context} {r r' : Reply α}
  {run run' : Runner} {site : Site} {en : Entity} {l : Label} {body : Prog Unit} {slot : Slot}

namespace Context

/-- All that waits is discreet. -/
def Patient (cx : Context) : Prop :=
  ∀ a ∈ cx.queue, a.work.Discreet

@[simp] theorem raise_guards : (cx.raise limit).guards = cx.guards := rfl

@[simp] theorem raise_queue : (cx.raise limit).queue = cx.queue := rfl

@[simp] theorem raise_keys : (cx.raise limit).keys = cx.keys := rfl

@[simp] theorem raise_nextLabel : (cx.raise limit).nextLabel = cx.nextLabel := rfl

@[simp] theorem raise_same? : (cx.raise limit).same? = cx.same? := rfl

@[simp] theorem raise_known? : (cx.raise limit).known? = cx.known? := rfl

theorem raise_register (cx : Context) (rendered : String) :
    (cx.raise limit).register rendered = (cx.register rendered).raise limit := by
  have hcheck : (cx.raise limit).extractor.config.checkLabelCollisions =
      cx.extractor.config.checkLabelCollisions := rfl
  unfold register
  rw [hcheck, raise_keys]
  split
  · rfl
  · split <;> rfl

theorem raise_introduce (cx : Context) (slot : Slot) (en : Entity) :
    (cx.raise limit).introduce slot en =
      ((cx.introduce slot en).1, (cx.introduce slot en).2.raise limit) := by
  let remembered := cx.allocate.remember slot ⟨cx.nextLabel, en⟩
  have hremembered : (cx.raise limit).allocate.remember slot ⟨cx.nextLabel, en⟩ =
      remembered.raise limit := by
    cases slot <;> rfl
  unfold introduce
  dsimp only
  rw [raise_nextLabel, hremembered, raise_register]
  rfl

/-- A run met its limit, and has closed since what guards were open then, but for those that are
open still. What it wrote before is the beginning of a trap. -/
def Cut (cx : Context) (trap : List Record) : Prop :=
  ∃ past now closing, cx.moments = past ++ now :: closing ∧ now.event = .limitHit ∧
    (∀ later ∈ closing, later.event = .wrote .pop) ∧
    now.guards.length = closing.length + cx.guards.length ∧ written past <+: trap

theorem Cut.extend {trap trap' : List Record} (h : cx.Cut trap) (ht : trap <+: trap') :
    cx.Cut trap' := by
  obtain ⟨past, now, closing, hm, hlimit, hpops, hguards, hwritten⟩ := h
  exact ⟨past, now, closing, hm, hlimit, hpops, hguards, hwritten.trans ht⟩

/-- A guard that was open is closed. -/
theorem Cut.closeGuard {trap : List Record} (h : cx.Cut trap) (hopen : cx.guards ≠ []) :
    cx.closeGuard.Cut trap := by
  obtain ⟨past, now, closing, hm, hlimit, hpops, hguards, hwritten⟩ := h
  have htail : cx.closeGuard.guards.length + 1 = cx.guards.length := by
    have hpos : 0 < cx.guards.length := List.length_pos_iff.2 hopen
    have hlength : cx.closeGuard.guards.length = cx.guards.length - 1 := List.length_tail
    omega
  refine ⟨past, now, closing ++ [cx.closeGuard.moment (.wrote .pop)], ?_, hlimit, ?_, ?_, hwritten⟩
  · rw [moments_closeGuard, hm]
    simp
  · intro later hlater
    rcases List.mem_append.1 hlater with hlater | hlater
    · exact hpops later hlater
    · rw [List.mem_singleton.1 hlater]
      rfl
  · rw [List.length_append, List.length_singleton]
    omega

/-- Where the limit is met, the trap is cut short of any that goes on from it. -/
theorem Cut.of_limit (cx : Context) {trap : List Record} (h : cx.trap <+: trap) :
    (cx.log .limitHit).Cut trap := by
  refine ⟨cx.moments, cx.moment .limitHit, [], cx.moments_log _, rfl, by simp, ?_, ?_⟩
  · exact (Nat.zero_add _).symm
  · exact h

end Context

/-- One run goes as the other does, under a higher limit, until that one meets its limit. -/
inductive Follows (limit : Nat) (r r' : Reply α) : Prop
  | step : r'.outcome = r.outcome → r'.context = r.context.raise limit → r.context.Patient →
      Follows limit r r'
  | cut : (∃ e, r.outcome = .failed e ∧ e.isFatal = true) → r.context.Cut r'.context.trap →
      Follows limit r r'

namespace Follows

theorem of_eq {o : Outcome α} (h : cx.Patient) :
    Follows limit ⟨o, cx⟩ ⟨o, cx.raise limit⟩ :=
  .step rfl rfl h

theorem andThen {next next' : α → Context → Reply β} (h : Follows limit r r')
    (hn : ∀ a cx, cx.Patient → Follows limit (next a cx) (next' a (cx.raise limit)))
    (hp : ∀ a cx, Passage cx (next' a cx).context) :
    Follows limit (r.andThen next) (r'.andThen next') := by
  obtain ⟨o, cx⟩ := r
  obtain ⟨o', cx'⟩ := r'
  cases h with
  | step ho hc hq =>
    cases ho
    cases hc
    cases o with
    | done a => exact hn a cx hq
    | failed | exhausted => exact of_eq hq
  | cut he hcut =>
    obtain ⟨e, he, hfatal⟩ := he
    cases he
    refine .cut ⟨e, rfl, hfatal⟩ ?_
    cases o' with
    | done a => exact hcut.extend (Context.trap_mono (hp a cx').events)
    | failed | exhausted => exact hcut

end Follows

def Passes (action : Context → Reply α) : Prop :=
  ∀ cx, Passage cx (action cx).context

/-- One way to run programs goes as the other does, under a higher limit. -/
structure Outruns (w : World) (limit : Nat) (run run' : Runner) : Prop where
  walks : Walks w .any run
  walks' : Walks w .any run'
  follows : ∀ {α : Type} {p : Prog α} {last : Bool} {cx : Context}, p.Discreet last →
    cx.Patient → Follows limit (run α p cx) (run' α p (cx.raise limit))

namespace World

theorem recover_follows {r r' : Reply Unit} (about : Option Concern) (node : Option NodeId)
    (symbol : Option SymbolId) (h : Follows limit r r') :
    Follows limit (w.recover about node symbol r) (w.recover about node symbol r') := by
  obtain ⟨o, cx⟩ := r
  obtain ⟨o', cx'⟩ := r'
  cases h with
  | step ho hc hq =>
    cases ho
    cases hc
    cases o with
    | done | exhausted => exact .of_eq hq
    | failed e =>
      unfold recover
      dsimp only
      split
      · exact .of_eq hq
      · exact .of_eq hq
  | cut he hcut =>
    obtain ⟨e, he, hfatal⟩ := he
    cases he
    rw [recover_of_contained about node symbol (fun _ he => by cases he; exact hfatal)]
    refine .cut ⟨e, rfl, hfatal⟩ ?_
    cases o' with
    | done | exhausted => exact hcut
    | failed e' =>
      unfold recover
      dsimp only
      split
      · exact hcut
      · exact hcut.extend (Context.trap_mono (Passage.send cx' _ _).events)

/-- Under a guard a run follows the raised one, up to the limit. -/
theorem guarding_follows {key : Key} {action action' : Context → Reply Unit}
    (h : ∀ cx, cx.Patient → Follows limit (action cx) (action' (cx.raise limit)))
    (hp : Passes action) (hq : cx.Patient) :
    Follows limit (w.guarding key action cx) (w.guarding key action' (cx.raise limit)) := by
  unfold guarding
  split
  · exact h cx hq
  · have hinner := h (cx.openGuard key) hq
    have hopen : (action (cx.openGuard key)).context.guards ≠ [] := by
      rw [(hp _).guards]
      exact List.cons_ne_nil _ _
    cases hinner with
    | step ho hc hq => exact .step ho (congrArg Context.closeGuard hc) hq
    | cut he hcut =>
      refine .cut he ((hcut.closeGuard hopen).extend ?_)
      exact Context.trap_mono ⟨_, (Context.events_closeGuard _).symm⟩

theorem guarding_passes {key : Key} {action : Context → Reply Unit} (h : Passes action) :
    Passes (w.guarding key action) := by
  intro cx
  unfold guarding
  split
  · exact h cx
  · exact (h (cx.openGuard key)).guarded

theorem describe_passes (h : Walks w site run) : Passes (w.describe run en l body) :=
  fun cx => (Passage.populating cx en l).trans (describe_course h).passage

section

variable (h : Outruns w limit run run')

include h

theorem describe_follows (hq : cx.Patient) (hb : body.Discreet true) :
    Follows limit (w.describe run en l body cx) (w.describe run' en l body (cx.raise limit)) :=
  recover_follows _ _ _ (h.follows hb hq)

theorem populate_follows (hq : cx.Patient) (hb : body.Discreet true) :
    Follows limit (w.populate run en l body cx) (w.populate run' en l body (cx.raise limit)) := by
  unfold populate
  rw [Context.raise_guards]
  split
  · have hplace : (Prog.entity (.location en.reportingLocation?)).Discreet false := fun _ => trivial
    refine (h.follows hplace hq).andThen (fun place cx hq => ?_) fun place cx =>
      guarding_passes (describe_passes h.walks') cx
    exact guarding_follows (fun cx hq => describe_follows h hq hb) (describe_passes h.walks) hq
  · exact describe_follows h hq hb

theorem schedule_follows (hq : cx.Patient) (hb : body.Discreet true) :
    Follows limit (w.schedule run en l body cx) (w.schedule run' en l body (cx.raise limit)) := by
  have hcomplain : ∀ plan, w.complain plan en l (cx.raise limit) =
      (w.complain plan en l cx).raise limit := by
    intro plan
    unfold complain
    split <;> rfl
  have hpatient : ∀ plan, (w.complain plan en l cx).Patient := by
    intro plan
    unfold complain
    split <;> exact hq
  unfold schedule
  rw [Context.raise_guards]
  dsimp only
  rw [hcomplain]
  split
  · refine .of_eq fun a ha => ?_
    rcases List.mem_append.1 ha with ha | ha
    · exact hpatient _ a ha
    · exact List.mem_singleton.1 ha ▸ hb
  · exact recover_follows _ _ _ (populate_follows h (hpatient _) hb)

/-- A new entity is described, or put off, as under the raised limit. -/
theorem settle_follows {body : Entity → Label → Prog Unit} (hq : cx.Patient)
    (hb : ∀ en l, (body en l).Discreet true) :
    Follows limit (w.settle run slot body en cx) (w.settle run' slot body en (cx.raise limit)) := by
  unfold settle
  rw [Context.raise_same?]
  split
  · exact .of_eq hq
  · rw [Context.raise_introduce]
    have hq : (cx.introduce slot en).2.Patient := by
      unfold Context.Patient
      rw [Context.queue_introduce]
      exact hq
    dsimp only
    split
    · exact (schedule_follows h hq (hb _ _)).andThen (fun _ _ hq => .of_eq hq) fun _ cx => .refl cx
    · exact .of_eq hq

theorem build_follows {factory : Prog Entity} {body : Entity → Label → Prog Unit}
    (hq : cx.Patient) (hf : factory.Discreet false) (hb : ∀ en l, (body en l).Discreet true) :
    Follows limit (w.build run slot factory body cx)
      (w.build run' slot factory body (cx.raise limit)) := by
  have hmade : Follows limit
      ((run Entity factory (cx.enter slot)).andThen (w.settle run slot body))
      ((run' Entity factory ((cx.enter slot).raise limit)).andThen (w.settle run' slot body)) := by
    have hfactory : Follows limit (run Entity factory (cx.enter slot))
        (run' Entity factory ((cx.enter slot).raise limit)) := h.follows hf hq
    exact hfactory.andThen (fun en cx hq => settle_follows h hq hb) fun en cx =>
      (settle_course h.walks').passage
  unfold build
  dsimp only
  cases hmade with
  | step ho hc hq => exact .step ho (congrArg Context.leave hc) hq
  | cut he hcut => exact .cut he hcut

end

section

variable {deeper deeper' : Option Runner} {drain drain' : Context → Reply Unit}

/-- How nested creations go, and those that only the higher limit leaves room for. -/
structure Deepens (w : World) (limit : Nat) (deeper deeper' : Option Runner) : Prop where
  outruns : ∀ run, deeper = some run → ∃ run', deeper' = some run' ∧ Outruns w limit run run'
  walks : ∀ run, deeper' = some run → Walks w .any run

/-- A creation follows the raised one, and where it has no room left it is cut. -/
theorem obtain?_follows {factory : Prog Entity} {body : Entity → Label → Prog Unit}
    (hdeeper : Deepens w limit deeper deeper') (hq : cx.Patient) (hf : factory.Discreet false)
    (hb : ∀ en l, (body en l).Discreet true) :
    Follows limit (w.obtain? deeper slot factory body cx)
      (w.obtain? deeper' slot factory body (cx.raise limit)) := by
  cases deeper with
  | some run =>
    obtain ⟨run', rfl, h⟩ := hdeeper.outruns run rfl
    unfold obtain?
    rw [Context.raise_known?]
    cases cx.known? slot with
    | some c => exact .of_eq hq
    | none =>
      exact (build_follows h hq hf hb).andThen (fun c cx hq => .of_eq hq) fun c cx => .log cx _
  | none =>
    have hcourse : Course w .any none (cx.raise limit)
        (w.obtain? deeper' slot factory body (cx.raise limit)).context :=
      obtain?_course hdeeper.walks
    unfold obtain? at hcourse ⊢
    rw [Context.raise_known?] at hcourse ⊢
    cases hk : cx.known? slot with
    | some c => exact .of_eq hq
    | none =>
      rw [hk] at hcourse
      exact .cut ⟨_, rfl, rfl⟩ (.of_limit cx (Context.trap_mono hcourse.passage.events))

/-- One way to drain the queue goes as the other does, under a higher limit. -/
structure Drains (w : World) (limit : Nat) (drain drain' : Context → Reply Unit) : Prop where
  course : ∀ cx, Course w .any none cx (drain cx).context
  course' : ∀ cx, Course w .any none cx (drain' cx).context
  follows : ∀ cx, cx.Patient → Follows limit (drain cx) (drain' (cx.raise limit))

/-- A discreet program cannot tell how high its limit is, as long as it is not met. -/
theorem eval_follows (hw : w.Discreet) (hdeeper : Deepens w limit deeper deeper')
    (hdrain : Drains w limit drain drain') {p : Prog α} (hp : p.Discreet last) (hq : cx.Patient) :
    Follows limit (w.eval deeper drain p cx) (w.eval deeper' drain' p (cx.raise limit)) := by
  have hwalks : ∀ run, deeper = some run → Walks w .any run := by
    intro run hrun
    obtain ⟨_, _, h⟩ := hdeeper.outruns run hrun
    exact h.walks
  have hrest : ∀ {β : Type} (p : Prog β), Passes (w.eval deeper' drain' p) :=
    fun p cx => (eval_course hdeeper.walks hdrain.course' p cx).passage
  induction p generalizing last cx with
  | pure | fail => exact .of_eq hq
  | fresh k ih => exact ih _ (hp _) hq
  | define key k ih => exact ih _ (hp _) hq
  | emit t k ih => exact ih hp hq
  | send message k ih => exact ih hp hq
  | modelError symbol text k ih =>
    obtain ⟨_, hk⟩ := hp
    cases k with
    | pure a =>
      unfold eval
      have hstandalone : (cx.raise limit).extractor.config.standalone =
          cx.extractor.config.standalone := rfl
      rw [hstandalone]
      split <;> exact .of_eq hq
    | _ => exact hk.elim
  | missingType name k ih => exact ih hp hq
  | setAssemblyFile name file k ih => exact ih hp hq
  | assemblyFile name k ih => exact ih _ (hp _) hq
  | openGenerics label k ih => exact ih _ (hp _) hq
  | snapshot k ih => exact ih _ (hp _) hq
  | note remark k ih => exact ih hp hq
  | guarded key body k ihb ihk =>
    have hbody : Passes (w.eval deeper drain body) :=
      fun cx => (eval_course hwalks hdrain.course body cx).passage
    exact (guarding_follows (fun _ hq => ihb hp.1 hq) hbody hq).andThen
      (fun _ _ hq => ihk hp.2 hq) fun _ => hrest k
  | attempt node symbol body k ihb ihk =>
    exact (recover_follows none node symbol (ihb hp.1 hq)).andThen (fun _ _ hq => ihk hp.2 hq)
      fun _ => hrest k
  | «catch» => exact hp.elim
  | later body k ihb ihk =>
    refine ihk hp.2 fun a ha => ?_
    rcases List.mem_append.1 ha with ha | ha
    · exact hq a ha
    · exact List.mem_singleton.1 ha ▸ hp.1
  | drain k ih => exact (hdrain.follows cx hq).andThen (fun _ _ hq => ih hp hq) fun _ => hrest k
  | create slot factory body k _ _ ihk =>
    exact (obtain?_follows hdeeper hq hp.1 hp.2.1).andThen (fun c _ hq => ihk c (hp.2.2 c) hq)
      fun c => hrest (k c)
  | summon recipe k ih =>
    exact (obtain?_follows hdeeper hq (hw.factory recipe) (hw.body recipe)).andThen
      (fun c _ hq => ih c (hp c) hq) fun c => hrest (k c)

end

theorem resume_follows {a : Pending} (h : Outruns w limit run run') (hq : cx.Patient)
    (ha : a.work.Discreet) :
    Follows limit (w.resume run a cx) (w.resume run' a (cx.raise limit)) := by
  obtain ⟨number, work⟩ := a
  cases work with
  | population en l body => exact recover_follows _ _ _ (populate_follows h hq ha)
  | program guard body =>
    refine recover_follows _ _ _ ?_
    have hbegan : ∀ cx : Context, cx.Patient →
        Follows limit (run Unit body (cx.log (.began number)))
          (run' Unit body ((cx.raise limit).log (.began number))) := fun cx hq => h.follows ha hq
    cases guard with
    | none => exact hbegan cx hq
    | some key =>
      refine guarding_follows hbegan (fun cx => ?_) hq
      exact (Passage.log cx _).trans (h.walks.course body _).passage

/-- With more room, too. -/
theorem runWithin_outruns {drain : Nat → Context → Reply Unit} (hw : w.Discreet)
    (hdrain : ∀ n n', n ≤ n' → Drains w limit (drain n) (drain n')) {n n' : Nat} (hn : n ≤ n') :
    Outruns w limit (fun α p cx => w.runWithin drain n α p cx)
      (fun α p cx => w.runWithin drain n' α p cx) := by
  have hcourse : ∀ n cx, Course w .any none cx (drain n cx).context :=
    fun n => (hdrain n n (Nat.le_refl n)).course
  have hwalks : ∀ n, Walks w .any fun α p cx => w.runWithin drain n α p cx :=
    runWithin_walks w.locates_any hcourse
  refine ⟨hwalks n, hwalks n', ?_⟩
  induction n generalizing n' with
  | zero =>
    intro α p last cx hp hq
    cases n' with
    | zero => exact eval_follows hw ⟨by simp, by simp⟩ (hdrain 0 0 hn) hp hq
    | succ n' =>
      refine eval_follows hw ⟨by simp, ?_⟩ (hdrain 0 (n' + 1) hn) hp hq
      rintro run ⟨⟩
      exact hwalks n'
  | succ n ih =>
    intro α p last cx hp hq
    cases n' with
    | zero => exact absurd hn (Nat.not_succ_le_zero n)
    | succ n' =>
      refine eval_follows hw ⟨?_, ?_⟩ (hdrain (n + 1) (n' + 1) hn) hp hq
      · rintro run ⟨⟩
        exact ⟨_, rfl, hwalks n, hwalks n', ih (Nat.le_of_succ_le_succ hn)⟩
      · rintro run ⟨⟩
        exact hwalks n'

/-- Draining follows the raised run, turn by turn, until the limit cuts it. -/
theorem drainWithin_follows (hw : w.Discreet) (budget : Nat) {n n' : Nat} (hn : n ≤ n') :
    Drains w limit (w.drainWithin budget n) (w.drainWithin budget n') := by
  refine ⟨drainWithin_course w.locates_any budget n, drainWithin_course w.locates_any budget n', ?_⟩
  induction budget generalizing n n' with
  | zero =>
    intro cx hq
    unfold drainWithin
    rw [Context.raise_queue]
    split <;> exact .of_eq hq
  | succ budget ih =>
    intro cx hq
    have hdrain : ∀ n n', n ≤ n' →
        Drains w limit (w.drainWithin budget n) (w.drainWithin budget n') := fun n n' hn =>
      ⟨drainWithin_course w.locates_any budget n, drainWithin_course w.locates_any budget n', ih hn⟩
    unfold drainWithin
    rw [Context.raise_queue]
    split
    · exact .of_eq hq
    · next a rest hqueue =>
      have hrest : (cx.take a rest).Patient := fun b hb => hq b (hqueue ▸ List.mem_cons_of_mem _ hb)
      have ha : a.work.Discreet := hq a (hqueue ▸ List.mem_cons_self)
      exact (resume_follows (runWithin_outruns hw hdrain hn) hrest ha).andThen
        (fun _ cx hq => ih hn cx hq) fun _ cx =>
          (drainWithin_course w.locates_any budget n' cx).passage

/-- A run under a higher limit goes as the one under the lower limit does, until that one meets its
limit. -/
theorem run_follows (hw : w.Discreet) (budget : Nat) {p : Prog α} (hp : p.Discreet last)
    (hq : cx.Patient) (hlimit : cx.maxDepth ≤ limit) :
    Follows limit (w.run budget p cx) (w.run budget p (cx.raise limit)) := by
  have hroom : cx.extractor.config.maxRecursionDepth - cx.depth ≤
      (cx.raise limit).extractor.config.maxRecursionDepth - (cx.raise limit).depth :=
    Nat.sub_le_sub_right hlimit _
  exact (runWithin_outruns hw (fun _ _ hn => drainWithin_follows hw budget hn) hroom).follows hp hq

end World

end TrapFacts
