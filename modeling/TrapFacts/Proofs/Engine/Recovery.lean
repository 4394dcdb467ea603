import TrapFacts.Proofs.Engine.Reply

/-! A description that fails is reported once and holds nobody up, unless the failure is fatal. -/

namespace TrapFacts

variable {α β : Type} {w : World} {run : Runner} {en : Entity} {l : Label} {body : Prog Unit}
  {slot : Slot} {cx cx' : Context}

/-- A reply that has not failed, or in a fatal way. -/
def Reply.Contained (r : Reply α) : Prop :=
  ∀ e, r.outcome = .failed e → e.isFatal = true

theorem Reply.Contained.andThen {r : Reply α} {next : α → Context → Reply β} (h : r.Contained)
    (hn : ∀ a cx, (next a cx).Contained) : (r.andThen next).Contained := by
  obtain ⟨o, cx⟩ := r
  cases o with
  | done a => exact hn a cx
  | failed e =>
    intro e' he
    cases he
    exact h e rfl
  | exhausted =>
    intro e' he
    cases he

namespace World

/-- Introduce an entity that is to be described, and tell about a guard that it misses. -/
def announce (w : World) (slot : Slot) (entity : Entity) (cx : Context) : Context :=
  w.complain (entity.behavior.plan (!cx.guards.isEmpty)) entity cx.nextLabel
    (cx.introduce slot entity).2

/-- Describe an entity, inside its own guard if it wants one, and recover from nothing. -/
def perform (w : World) (run : Runner) (entity : Entity) (label : Label) (body : Prog Unit)
    (cx : Context) : Reply Unit :=
  if (entity.behavior.plan (!cx.guards.isEmpty)).duplicationGuard then
    (run Created (.entity (.location entity.reportingLocation?)) cx).andThen fun place cx =>
      w.guarding (.label label (.ofLabel place.label))
        (fun cx => run Unit body (cx.populating entity label)) cx
  else run Unit body (cx.populating entity label)

/-- What a call that has a result makes of a description on its way. -/
structure Settles (w : World) (en : Entity) (raw : Reply Unit) (result : α) (r : Reply α) :
    Prop where
  done : raw.outcome = .done () →
    r.outcome = .done result ∧ r.context.sent = raw.context.sent
  /-- A failure is reported, once, and does not matter otherwise. -/
  reported : ∀ e, raw.outcome = .failed e → e.isFatal = false →
    r.outcome = .done result ∧
      r.context.sent = raw.context.sent ++ [w.model.failureMessage e none en.symbol?]
  /-- A fatal failure is passed on, and not reported. -/
  passed : ∀ e, raw.outcome = .failed e → e.isFatal = true →
    r.outcome = .failed e ∧ r.context.sent = raw.context.sent
  exhausted : raw.outcome = .exhausted →
    r.outcome = .exhausted ∧ r.context.sent = raw.context.sent

/-- After recovery only what is fatal is left. -/
theorem recover_contained (about : Option Concern) (node : Option NodeId)
    (symbol : Option SymbolId) (r : Reply Unit) :
    (w.recover about node symbol r).Contained := by
  obtain ⟨o, cx⟩ := r
  intro e he
  cases o with
  | done | exhausted => cases he
  | failed e' =>
    cases hf : e'.isFatal with
    | true =>
      simp only [recover, hf, if_true] at he
      cases he
      exact hf
    | false =>
      simp only [recover, hf] at he
      cases he

/-- There is nothing to recover from twice. -/
theorem recover_of_contained (about : Option Concern) (node : Option NodeId)
    (symbol : Option SymbolId) {r : Reply Unit} (h : r.Contained) :
    w.recover about node symbol r = r := by
  obtain ⟨o, cx⟩ := r
  cases o with
  | done | exhausted => rfl
  | failed e =>
    have he : e.isFatal = true := h e rfl
    simp only [recover, he, if_true]

theorem describe_contained : (w.describe run en l body cx).Contained :=
  recover_contained _ _ _ _

theorem guarding_contained {key : Key} {action : Context → Reply Unit}
    (h : ∀ cx, (action cx).Contained) : (w.guarding key action cx).Contained := by
  unfold guarding
  split
  · exact h cx
  · exact h (cx.openGuard key)

theorem schedule_contained : (w.schedule run en l body cx).Contained := by
  unfold schedule
  dsimp only
  split
  · intro e he
    cases he
  · exact recover_contained _ _ _ _

theorem settle_contained {body : Entity → Label → Prog Unit} :
    (w.settle run slot body en cx).Contained := by
  unfold settle
  split
  · intro e he
    cases he
  · dsimp only
    split
    · refine schedule_contained.andThen fun _ _ e he => ?_
      cases he
    · intro e he
      cases he

namespace Settles

variable {raw : Reply Unit}

theorem recover : Settles w en raw () (w.recover (some (.failure l)) none en.symbol? raw) := by
  obtain ⟨o, cx⟩ := raw
  refine ⟨?_, ?_, ?_, ?_⟩
  · rintro ⟨⟩
    exact ⟨rfl, rfl⟩
  · rintro e ⟨⟩ he
    have hr : w.recover (some (.failure l)) none en.symbol? ⟨.failed e, cx⟩ =
        ⟨.done (), cx.send (w.model.failureMessage e none en.symbol?) (some (.failure l))⟩ := by
      simp only [World.recover, he]
      rfl
    rw [hr]
    exact ⟨rfl, Context.sent_send _ _ _⟩
  · rintro e ⟨⟩ he
    have hr : w.recover (some (.failure l)) none en.symbol? ⟨.failed e, cx⟩ = ⟨.failed e, cx⟩ := by
      simp only [World.recover, he, if_true]
    rw [hr]
    exact ⟨rfl, rfl⟩
  · rintro ⟨⟩
    exact ⟨rfl, rfl⟩

/-- What is said remains said. -/
theorem congr {result : α} {r r' : Reply α} {raw' : Reply Unit} (h : Settles w en raw result r)
    (ho : raw'.outcome = raw.outcome) (hs : raw'.context.sent = raw.context.sent)
    (ho' : r'.outcome = r.outcome) (hs' : r'.context.sent = r.context.sent) :
    Settles w en raw' result r' := by
  obtain ⟨hdone, hreported, hpassed, hexhausted⟩ := h
  rw [← ho, ← ho', ← hs, ← hs'] at hdone hexhausted
  refine ⟨hdone, fun e => ?_, fun e => ?_, hexhausted⟩
  · rw [ho, ho', hs, hs']
    exact hreported e
  · rw [ho, ho', hs, hs']
    exact hpassed e

theorem guarding {key : Key} {plain action : Context → Reply Unit}
    (h : ∀ cx, Settles w en (plain cx) () (action cx)) :
    Settles w en (w.guarding key plain cx) () (w.guarding key action cx) := by
  unfold World.guarding
  split
  · exact h cx
  · have hsent := Context.sent_closeGuard
    exact (h (cx.openGuard key)).congr rfl (hsent _) rfl (hsent _)

/-- A call goes on to return its result, and says no more. -/
theorem andThen {result : α} {r : Reply Unit} {next : Unit → Context → Reply α}
    (h : Settles w en raw () r)
    (hn : ∀ cx, (next () cx).outcome = .done result ∧ (next () cx).context.sent = cx.sent) :
    Settles w en raw result (r.andThen next) := by
  obtain ⟨hdone, hreported, hpassed, hexhausted⟩ := h
  obtain ⟨o, cx₁⟩ := r
  obtain ⟨hres, hsent⟩ := hn cx₁
  refine ⟨fun hraw => ?_, fun e hraw hf => ?_, fun e hraw hf => ?_, fun hraw => ?_⟩
  · obtain ⟨ho, hs⟩ := hdone hraw
    cases ho
    exact ⟨hres, hsent.trans hs⟩
  · obtain ⟨ho, hs⟩ := hreported e hraw hf
    cases ho
    exact ⟨hres, hsent.trans hs⟩
  · obtain ⟨ho, hs⟩ := hpassed e hraw hf
    cases ho
    exact ⟨rfl, hs⟩
  · obtain ⟨ho, hs⟩ := hexhausted hraw
    cases ho
    exact ⟨rfl, hs⟩

end Settles

/-- A description is recovered from where it runs and again by whoever asked for it, which is no
more than once. -/
theorem recover_populate :
    Settles w en (w.perform run en l body cx) ()
      (w.recover (some (.failure l)) none en.symbol? (w.populate run en l body cx)) := by
  have hdescribe : ∀ cx, Settles w en (run Unit body (cx.populating en l)) ()
      (w.describe run en l body cx) := fun _ => .recover
  unfold perform populate
  split
  · cases run Created (.entity (.location en.reportingLocation?)) cx with | mk o cx₁ => ?_
    cases o with
    | done place =>
      simp only [Reply.andThen]
      rw [recover_of_contained _ _ _ (guarding_contained fun _ => describe_contained)]
      exact .guarding hdescribe
    | failed | exhausted => exact .recover
  · rw [recover_of_contained _ _ _ describe_contained]
    exact hdescribe cx

variable {factory : Prog Entity} {bodyOf : Entity → Label → Prog Unit} {cx₁ : Context}

/-- A creation of something new makes it one level deeper and schedules its description there. -/
theorem obtain?_new (hk : cx.known? slot = none)
    (hf : run Entity factory (cx.enter slot) = ⟨.done en, cx₁⟩) (hs : cx₁.same? slot en = none)
    (hp : en.needsPopulation = true) :
    let c : Created := ⟨cx₁.nextLabel, en⟩
    let r := w.schedule run en c.label (bodyOf en c.label) (cx₁.introduce slot en).2
    w.obtain? (some run) slot factory bodyOf cx =
      Reply.andThen ⟨r.outcome, r.context.leave⟩ fun _ cx =>
        ⟨.done c, cx.log (.served slot c)⟩ := by
  intro c r
  have hsettle : w.settle run slot bodyOf en cx₁ = r.andThen fun _ cx => ⟨.done c, cx⟩ := by
    simp only [settle, hs, hp, if_true]
    rfl
  simp only [obtain?, hk, build, hf]
  simp only [Reply.andThen]
  rw [hsettle]
  obtain ⟨o, cx₂⟩ := r
  cases o <;> rfl

/-- The description of a new entity is scheduled after the entity is announced. -/
theorem schedule_introduce :
    w.schedule run en cx.nextLabel body (cx.introduce slot en).2 =
      if (en.behavior.plan (!cx.guards.isEmpty)).deferred then
        ⟨.done (), (w.announce slot en cx).enqueue (.population en cx.nextLabel body)⟩
      else
        w.recover (some (.failure cx.nextLabel)) none en.symbol?
          (w.populate run en cx.nextLabel body (w.announce slot en cx)) := by
  simp only [schedule, announce, Context.guards_introduce]

/-- Where a description has to wait, a guard is open, so none is missing. -/
theorem announce_of_deferred (hd : (en.behavior.plan (!cx.guards.isEmpty)).deferred = true) :
    w.announce slot en cx = (cx.introduce slot en).2 := by
  obtain ⟨hg, hb⟩ := plan_deferred.1 hd
  unfold announce complain
  rw [if_neg]
  intro hm
  rw [(plan_missingGuard.1 hm).1] at hg
  cases hg

/-- What becomes of the descriptions that creations ask for and the queue holds. -/
structure Containment (w : World) : Prop where
  /-- A creation that describes its entity at once returns the entity all the same. -/
  inline : ∀ {run : Runner} {slot : Slot} {factory : Prog Entity}
    {body : Entity → Label → Prog Unit} {en : Entity} {cx cx₁ : Context},
    cx.known? slot = none → run Entity factory (cx.enter slot) = ⟨.done en, cx₁⟩ →
    cx₁.same? slot en = none → en.needsPopulation = true →
    (en.behavior.plan (!cx₁.guards.isEmpty)).deferred = false →
    Settles w en (w.perform run en cx₁.nextLabel (body en cx₁.nextLabel) (w.announce slot en cx₁))
      (⟨cx₁.nextLabel, en⟩ : Created) (w.obtain? (some run) slot factory body cx)
  /-- A creation whose description has to wait returns the entity, and queues the description. -/
  deferred : ∀ {run : Runner} {slot : Slot} {factory : Prog Entity}
    {body : Entity → Label → Prog Unit} {en : Entity} {cx cx₁ : Context},
    cx.known? slot = none → run Entity factory (cx.enter slot) = ⟨.done en, cx₁⟩ →
    cx₁.same? slot en = none → en.needsPopulation = true →
    (en.behavior.plan (!cx₁.guards.isEmpty)).deferred = true →
    let r := w.obtain? (some run) slot factory body cx
    let work : Work := .population en cx₁.nextLabel (body en cx₁.nextLabel)
    r.outcome = .done ⟨cx₁.nextLabel, en⟩ ∧ r.context.queue = cx₁.queue ++ [⟨cx₁.deferred, work⟩] ∧
      r.context.sent = (cx₁.introduce slot en).2.sent
  /-- Draining describes what comes first and goes on after it. -/
  queued : ∀ {budget room number : Nat} {en : Entity} {l : Label} {body : Prog Unit}
    {cx : Context} {rest : List Pending},
    let run := w.runWithin (fun room cx => w.drainWithin budget room cx) room
    let a : Pending := ⟨number, .population en l body⟩
    cx.queue = a :: rest →
    ∃ r, w.drainWithin (budget + 1) room cx = r.andThen (fun _ cx => w.drainWithin budget room cx) ∧
      Settles w en (w.perform run en l body ((cx.take a rest).log (.began number))) () r
  /-- A failure that a creation returns is fatal, or that of its own factory. -/
  factory : ∀ {deeper : Option Runner} {slot : Slot} {factory : Prog Entity}
    {body : Entity → Label → Prog Unit} {cx : Context} {e : Failure},
    (w.obtain? deeper slot factory body cx).outcome = .failed e → e.isFatal = false →
    ∃ run, deeper = some run ∧ (run Entity factory (cx.enter slot)).outcome = .failed e
  /-- A report is an error about the entity's symbol, if it has one, else about the failure's. -/
  report : ∀ (en : Entity) (e : Failure),
    let message := w.model.failureMessage e none en.symbol?
    message.severity = .error ∧
      message.symbol = (en.symbol?.or e.symbol?).map w.model.displayName

/-- A creation that fails without being fatal failed in the factory. -/
theorem obtain?_factory {deeper : Option Runner} {e : Failure}
    (he : (w.obtain? deeper slot factory bodyOf cx).outcome = .failed e) (hn : e.isFatal = false) :
    ∃ run, deeper = some run ∧ (run Entity factory (cx.enter slot)).outcome = .failed e := by
  cases hk : cx.known? slot with
  | some c =>
    simp only [obtain?, hk] at he
    cases he
  | none =>
    cases deeper with
    | none =>
      simp only [obtain?, hk] at he
      cases he
      cases hn
    | some run =>
      refine ⟨run, rfl, ?_⟩
      simp only [obtain?, hk, build] at he
      cases hf : run Entity factory (cx.enter slot) with | mk o cx₁ => ?_
      rw [hf] at he
      cases o with
      | failed e' =>
        cases he
        rfl
      | exhausted => cases he
      | done en =>
        have hs : (w.settle run slot bodyOf en cx₁).Contained := settle_contained
        simp only [Reply.andThen] at he
        cases hr : w.settle run slot bodyOf en cx₁ with | mk o cx₂ => ?_
        rw [hr] at he hs
        cases o with
        | done c | exhausted => cases he
        | failed e' =>
          cases he
          have hfatal := hs e rfl
          rw [hn] at hfatal
          cases hfatal

/-- A description that fails fails nobody else, unless the failure is fatal; and it is reported
once, unless the failure is fatal. -/
theorem failures_contained (w : World) : Containment w where
  inline := by
    intro run slot factory body en cx cx₁ hk hf hs hp hd
    rw [obtain?_new hk hf hs hp, schedule_introduce, if_neg (by simp [hd])]
    have hnow : Settles w en
        (w.perform run en cx₁.nextLabel (body en cx₁.nextLabel) (w.announce slot en cx₁)) ()
        (w.recover (some (.failure cx₁.nextLabel)) none en.symbol?
          (w.populate run en cx₁.nextLabel (body en cx₁.nextLabel) (w.announce slot en cx₁))) :=
      recover_populate
    refine Settles.andThen (hnow.congr rfl rfl rfl rfl) fun cx => ⟨rfl, ?_⟩
    exact Context.sent_quiet (cx.events_log _) rfl
  deferred := by
    intro run slot factory body en cx cx₁ hk hf hs hp hd r work
    have hannounce : w.announce slot en cx₁ = (cx₁.introduce slot en).2 := announce_of_deferred hd
    have hr : r = ⟨.done ⟨cx₁.nextLabel, en⟩, (((cx₁.introduce slot en).2.enqueue work).leave).log
        (.served slot ⟨cx₁.nextLabel, en⟩)⟩ := by
      simp only [r]
      rw [obtain?_new hk hf hs hp, schedule_introduce, if_pos hd, hannounce]
      rfl
    rw [hr]
    refine ⟨rfl, ?_, ?_⟩
    · calc ((cx₁.introduce slot en).2.enqueue work).queue
          = (cx₁.introduce slot en).2.queue ++ [⟨(cx₁.introduce slot en).2.deferred, work⟩] := rfl
        _ = _ := by rw [Context.queue_introduce, Context.deferred_introduce]
    · have hserved : (((cx₁.introduce slot en).2.enqueue work).leave.log
          (.served slot ⟨cx₁.nextLabel, en⟩)).sent =
        ((cx₁.introduce slot en).2.enqueue work).sent :=
        Context.sent_quiet (Context.events_log _ _) rfl
      exact hserved.trans (Context.sent_quiet (Context.events_enqueue _ _) rfl)
  queued := by
    intro budget room number en l body cx rest run a hq
    refine ⟨w.resume run a (cx.take a rest), ?_, recover_populate⟩
    rw [drainWithin]
    simp only [hq]
    rfl
  factory := obtain?_factory
  report en e := by
    refine ⟨w.model.severity_failureMessage _ _ _, ?_⟩
    unfold Model.failureMessage Model.attributed
    cases en.symbol?.or e.symbol? with
    | none => cases e <;> rfl
    | some id => rfl

end World

end TrapFacts
