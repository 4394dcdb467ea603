import TrapFacts.Proofs.Engine.Recovery
import TrapFacts.Proofs.Engine.Trail

/-! What a run does to a context, with the guards and the queue that each of its steps finds. -/

namespace TrapFacts

/-- Which label stands for a place. -/
abbrev Site := Context → Option Declaration → Label → Prop

/-- The course of a run. One that is due to describe an entity does so, unless the place for the
entity's own guard cannot be made or a fatal failure comes first. -/
inductive Course (w : World) (site : Site) : Option Due → Context → Context → Prop
  | refl (cx : Context) : Course w site none cx cx
  | trans {due cx cx₁ cx'} : Course w site none cx cx₁ → Course w site due cx₁ cx' →
      Course w site due cx cx'
  | deed {cx cx'} : Deed cx cx' → Course w site none cx cx'
  | sent (cx : Context) (message : Message) : Course w site none cx (cx.send message none)
  | limit (cx : Context) : Course w site none cx (cx.log .limitHit)
  | served (cx : Context) (slot : Slot) (c : Created) :
      Course w site none cx (cx.log (.served slot c))
  | guarded {key cx cx'} : w.scope.isAssembly = false →
      Course w site none (cx.openGuard key) cx' → Course w site none cx cx'.closeGuard
  | nested {slot cx cx'} : Course w site none (cx.enter slot) cx' → Course w site none cx cx'.leave
  /-- A new entity that is not described. -/
  | bare {en : Entity} (cx : Context) (slot : Slot) : en.needsPopulation = false →
      Course w site none cx (cx.introduce slot en).2
  /-- A new entity that is described at once. -/
  | prompt {en : Entity} {slot cx cx'} : en.needsPopulation = true →
      (en.behavior.plan (!cx.guards.isEmpty)).deferred = false →
      Course w site (some (en, cx.nextLabel)) (w.announce slot en cx) cx' →
      Course w site none cx cx'
  /-- A new entity whose description has to wait. -/
  | deferred {en : Entity} {cx} (slot : Slot) (body : Prog Unit) : en.needsPopulation = true →
      (en.behavior.plan (!cx.guards.isEmpty)).deferred = true →
      Course w site none cx
        ((w.announce slot en cx).enqueue (.population en cx.nextLabel body))
  | described {en : Entity} {l cx cx'} : en.behavior ≠ .pushesScope ∨ w.scope.isAssembly = true →
      Course w site none (cx.populating en l) cx' → Course w site (some (en, l)) cx cx'
  | describedGuarded {en : Entity} {l place cx cx'} : en.behavior = .pushesScope →
      w.scope.isAssembly = false → site cx en.reportingLocation? place →
      Course w site none ((cx.openGuard (.label l (.ofLabel place))).populating en l) cx' →
      Course w site (some (en, l)) cx cx'.closeGuard
  | stopped {due cx cx'} : Course w site none cx cx' → Course w site (some due) cx cx'
  /-- A description given up for want of a place. -/
  | excused {en : Entity} {l : Label} {e : Failure} (cx : Context) :
      en.behavior = .pushesScope → e.isFatal = false →
      Course w site (some (en, l)) cx
        (cx.send (w.model.failureMessage e none en.symbol?) (some (.failure l)))
  | reported {en : Entity} {l : Label} {e : Failure} {cx : Context} :
      Event.populating en l ∈ cx.events → e.isFatal = false →
      Course w site none cx (cx.send (w.model.failureMessage e none en.symbol?) (some (.failure l)))
  | taken {number guard body rest} {cx cx' : Context} :
      cx.queue = ⟨number, .program guard body⟩ :: rest →
      guard = none ∨ w.scope.isAssembly = true →
      Course w site none ((cx.take ⟨number, .program guard body⟩ rest).log (.began number)) cx' →
      Course w site none cx cx'
  | takenGuarded {number key body rest} {cx cx' : Context} :
      cx.queue = ⟨number, .program (some key) body⟩ :: rest → w.scope.isAssembly = false →
      Course w site none (((cx.take ⟨number, .program (some key) body⟩ rest).openGuard key).log
        (.began number)) cx' →
      Course w site none cx cx'.closeGuard
  | resumed {number en l body rest} {cx cx' : Context} :
      cx.queue = ⟨number, .population en l body⟩ :: rest →
      Course w site (some (en, l))
        ((cx.take ⟨number, .population en l body⟩ rest).log (.began number)) cx' →
      Course w site none cx cx'

variable {α β : Type} {w : World} {site : Site} {due : Option Due} {cx cx₁ cx' : Context}
  {en : Entity} {l : Label} {slot : Slot} {run : Runner} {body : Prog Unit}

/-- What a course leaves as it was. -/
structure Passage (cx cx' : Context) : Prop where
  guards : cx'.guards = cx.guards
  moments : cx.moments <+: cx'.moments

namespace Passage

theorem refl (cx : Context) : Passage cx cx :=
  ⟨rfl, List.prefix_rfl⟩

theorem trans (h : Passage cx cx₁) (h' : Passage cx₁ cx') : Passage cx cx' :=
  ⟨h'.guards.trans h.guards, h.moments.trans h'.moments⟩

theorem log (cx : Context) (e : Event) : Passage cx (cx.log e) :=
  ⟨rfl, ⟨_, (cx.moments_log e).symm⟩⟩

theorem send (cx : Context) (message : Message) (about : Option Concern) :
    Passage cx (cx.send message about) :=
  ⟨rfl, ⟨_, (cx.moments_send message about).symm⟩⟩

theorem enqueue (cx : Context) (work : Work) : Passage cx (cx.enqueue work) :=
  ⟨rfl, ⟨_, (cx.moments_enqueue work).symm⟩⟩

theorem take (cx : Context) (a : Pending) (rest : List Pending) : Passage cx (cx.take a rest) :=
  ⟨rfl, ⟨_, (cx.moments_take a rest).symm⟩⟩

theorem populating (cx : Context) (en : Entity) (l : Label) : Passage cx (cx.populating en l) :=
  ⟨rfl, ⟨_, (cx.moments_populating en l).symm⟩⟩

theorem introduce (cx : Context) (slot : Slot) (en : Entity) :
    Passage cx (cx.introduce slot en).2 :=
  ⟨cx.guards_introduce slot en, ⟨_, (cx.moments_introduce slot en).symm⟩⟩

theorem announce (cx : Context) (slot : Slot) (en : Entity) :
    Passage cx (w.announce slot en cx) := by
  have hintroduce := introduce cx slot en
  unfold World.announce World.complain
  split
  · exact hintroduce.trans (send _ _ _)
  · exact hintroduce

theorem nested (h : Passage (cx.enter slot) cx') : Passage cx cx'.leave :=
  ⟨h.guards, List.IsPrefix.trans ⟨_, (cx.moments_enter slot).symm⟩ h.moments⟩

theorem guarded {key : Key} (h : Passage (cx.openGuard key) cx') : Passage cx cx'.closeGuard where
  guards := congrArg List.tail h.guards
  moments := by
    have hopen : cx.moments <+: (cx.openGuard key).moments := ⟨_, (cx.moments_openGuard key).symm⟩
    have hclose : cx'.moments <+: cx'.closeGuard.moments := ⟨_, cx'.moments_closeGuard.symm⟩
    exact hopen.trans (h.moments.trans hclose)

theorem deed (h : Deed cx cx') : Passage cx cx' := by
  cases h with
  | setAssemblyFile | openGenerics => exact ⟨rfl, List.prefix_rfl⟩
  | later => exact enqueue _ _
  | note => exact log _ _
  | fresh | define => exact ⟨rfl, ⟨_, (cx.allocate.moments_write _).symm⟩⟩
  | emit => exact ⟨rfl, ⟨_, (cx.moments_write _).symm⟩⟩
  | missingType => exact ⟨rfl, ⟨_, (cx.moments_missingType _).symm⟩⟩

theorem events (h : Passage cx cx') : cx.events <+: cx'.events :=
  h.moments.map _

end Passage

/-- A course leaves the guards as they were, and only adds to the history. -/
theorem Course.passage (h : Course w site due cx cx') : Passage cx cx' := by
  induction h with
  | refl => exact .refl _
  | trans _ _ ih ih' => exact ih.trans ih'
  | deed h => exact .deed h
  | sent | excused | reported => exact .send _ _ _
  | limit | served => exact .log _ _
  | guarded _ _ ih => exact .guarded ih
  | nested _ ih => exact .nested ih
  | bare => exact .introduce _ _ _
  | prompt _ _ _ ih => exact (Passage.announce _ _ _).trans ih
  | deferred => exact (Passage.announce _ _ _).trans (.enqueue _ _)
  | described _ _ ih => exact (Passage.populating _ _ _).trans ih
  | describedGuarded _ _ _ _ ih => exact .guarded ((Passage.populating _ _ _).trans ih)
  | stopped _ ih => exact ih
  | taken _ _ _ ih => exact (Passage.take _ _ _).trans ((Passage.log _ _).trans ih)
  | takenGuarded _ _ _ ih =>
    exact (Passage.take _ _ _).trans (.guarded ((Passage.log _ _).trans ih))
  | resumed _ _ ih => exact (Passage.take _ _ _).trans ((Passage.log _ _).trans ih)

def Site.any : Site := fun _ _ _ => True

theorem Course.lax (h : Course w site due cx cx') : Course w .any due cx cx' := by
  induction h with
  | refl => exact .refl _
  | trans _ _ ih ih' => exact ih.trans ih'
  | deed h => exact .deed h
  | sent => exact .sent _ _
  | limit => exact .limit _
  | served => exact .served _ _ _
  | guarded hs _ ih => exact .guarded hs ih
  | nested _ ih => exact .nested ih
  | bare _ _ hp => exact .bare _ _ hp
  | prompt hp hd _ ih => exact .prompt hp hd ih
  | deferred _ _ hp hd => exact .deferred _ _ hp hd
  | described hb _ ih => exact .described hb ih
  | describedGuarded hb hs _ _ ih => exact .describedGuarded hb hs trivial ih
  | stopped _ ih => exact .stopped ih
  | excused _ hb he => exact .excused _ hb he
  | reported hp he => exact .reported hp he
  | taken hq hg _ ih => exact .taken hq hg ih
  | takenGuarded hq hs _ ih => exact .takenGuarded hq hs ih
  | resumed hq _ ih => exact .resumed hq ih

/-- A way to run programs that keeps to a course and finds the places that it makes. -/
structure Walks (w : World) (site : Site) (run : Runner) : Prop where
  course : ∀ {α : Type} (p : Prog α) (cx : Context), Course w site none cx (run α p cx).context
  place : ∀ (place : Option Declaration) (cx cx' : Context) (c : Created),
    run Created (.entity (.location place)) cx = ⟨.done c, cx'⟩ → site cx' place c.label

namespace World

theorem andThen_course {r : Reply α} {next : α → Context → Reply β}
    (h : Course w site none cx r.context)
    (hn : ∀ a cx, Course w site none cx (next a cx).context) :
    Course w site none cx (r.andThen next).context := by
  obtain ⟨o, cx₁⟩ := r
  cases o with
  | done a => exact h.trans (hn a cx₁)
  | failed | exhausted => exact h

/-- A report of a failure may follow any course. -/
theorem recover_course {r : Reply Unit} (node : Option NodeId) (symbol : Option SymbolId)
    (h : Course w site none cx r.context) :
    Course w site none cx (w.recover none node symbol r).context := by
  obtain ⟨o, cx₁⟩ := r
  cases o with
  | done | exhausted => exact h
  | failed e =>
    simp only [recover]
    split
    · exact h
    · exact h.trans (.sent _ _)

/-- A guard is closed again after any course under it. -/
theorem guarding_course {key : Key} {action : Context → Reply Unit}
    (h : ∀ cx, Course w site none cx (action cx).context) :
    Course w site none cx (w.guarding key action cx).context := by
  unfold guarding
  split
  · exact h cx
  · next hs => exact .guarded (by simpa using hs) (h _)

section

variable (h : Walks w site run)

include h

theorem describe_course :
    Course w site none (cx.populating en l) (w.describe run en l body cx).context := by
  have hbody := h.course body (cx.populating en l)
  have hbegan : Event.populating en l ∈ (run Unit body (cx.populating en l)).context.events :=
    hbody.passage.events.subset (by simp)
  unfold describe
  generalize run Unit body (cx.populating en l) = r at hbody hbegan
  obtain ⟨o, cx₁⟩ := r
  cases o with
  | done | exhausted => exact hbody
  | failed e =>
    cases he : e.isFatal with
    | true => simpa only [recover, he, if_true] using hbody
    | false =>
      simp only [recover, he]
      exact hbody.trans (.reported hbegan he)

theorem populate_course :
    Course w site (some (en, l)) cx
      (w.recover (some (.failure l)) none en.symbol? (w.populate run en l body cx)).context := by
  unfold populate
  split
  · next hg =>
    have hb := plan_duplicationGuard.1 hg
    have hplace := h.course (.entity (.location en.reportingLocation?)) cx
    cases hr : run Created (.entity (.location en.reportingLocation?)) cx with | mk o cx₁ => ?_
    rw [hr] at hplace
    simp only [Reply.andThen]
    cases o with
    | exhausted => exact .stopped hplace
    | failed e =>
      cases he : e.isFatal with
      | true => simpa only [recover, he, if_true] using .stopped hplace
      | false =>
        simp only [recover, he]
        exact hplace.trans (.excused _ hb he)
    | done place =>
      have hsite := h.place _ _ _ _ hr
      dsimp only
      rw [recover_of_contained _ _ _ (guarding_contained fun _ => describe_contained)]
      unfold guarding
      refine hplace.trans ?_
      split
      · next hs => exact .described (.inr hs) (describe_course h)
      · next hs => exact .describedGuarded hb (by simpa using hs) hsite (describe_course h)
  · next hg =>
    have hb : en.behavior ≠ .pushesScope := mt plan_duplicationGuard.2 hg
    rw [recover_of_contained _ _ _ describe_contained]
    exact .described (.inl hb) (describe_course h)

theorem schedule_course (hp : en.needsPopulation = true) :
    Course w site none cx
      (w.schedule run en cx.nextLabel body (cx.introduce slot en).2).context := by
  rw [schedule_introduce]
  split
  · next hd => exact .deferred _ _ hp hd
  · next hd => exact .prompt hp (by simpa using hd) (populate_course h)

theorem settle_course {body : Entity → Label → Prog Unit} :
    Course w site none cx (w.settle run slot body en cx).context := by
  unfold settle
  split
  · exact .refl cx
  · dsimp only
    split
    · next hp => exact andThen_course (schedule_course h hp) fun _ cx => .refl cx
    · next hp => exact .bare cx slot (by simpa using hp)

theorem resume_course {a : Pending} {rest : List Pending} (hq : cx.queue = a :: rest) :
    Course w site none cx (w.resume run a (cx.take a rest)).context := by
  obtain ⟨number, work⟩ := a
  cases work with
  | population => exact .resumed hq (populate_course h)
  | program guard body =>
    refine recover_course none none ?_
    cases guard with
    | none => exact .taken hq (.inl rfl) (h.course body _)
    | some key =>
      dsimp only
      unfold guarding
      split
      · next hs => exact .taken hq (.inr hs) (h.course body _)
      · next hs => exact .takenGuarded hq (by simpa using hs) (h.course body _)

end

variable {deeper : Option Runner} {drain : Context → Reply Unit}

/-- A creation is a course, whether the entity is known or new. -/
theorem obtain?_course {factory : Prog Entity} {bodyOf : Entity → Label → Prog Unit}
    (h : ∀ run, deeper = some run → Walks w site run) :
    Course w site none cx (w.obtain? deeper slot factory bodyOf cx).context := by
  unfold obtain?
  cases cx.known? slot with
  | some c => exact .served _ _ _
  | none =>
    cases deeper with
    | none => exact .limit cx
    | some run =>
      have hrun := h run rfl
      have hmade : Course w site none (cx.enter slot)
          ((run Entity factory (cx.enter slot)).andThen (w.settle run slot bodyOf)).context :=
        andThen_course (hrun.course factory _) fun _ _ => settle_course hrun
      exact andThen_course (.nested hmade) fun _ _ => .served _ _ _

/-- One step of any program is a course. -/
theorem eval_course (hrun : ∀ run, deeper = some run → Walks w site run)
    (hdrain : ∀ cx, Course w site none cx (drain cx).context) (p : Prog α) (cx : Context) :
    Course w site none cx (w.eval deeper drain p cx).context := by
  induction p generalizing cx with
  | pure | fail => exact .refl cx
  | fresh k ih => exact .trans (.deed (.fresh cx)) (ih _ _)
  | define key k ih => exact .trans (.deed (.define cx key)) (ih _ _)
  | emit t k ih => exact .trans (.deed (.emit cx t)) (ih _)
  | send message k ih => exact .trans (.sent cx message) (ih _)
  | modelError symbol text k ih =>
    unfold eval
    split
    · exact ih cx
    · exact .refl cx
  | missingType n k ih => exact .trans (.deed (.missingType cx n)) (ih _)
  | setAssemblyFile n file k ih => exact .trans (.deed (.setAssemblyFile cx n file)) (ih _)
  | assemblyFile n k ih => exact ih _ cx
  | openGenerics l k ih => exact .trans (.deed (.openGenerics cx l)) (ih _ _)
  | snapshot k ih => exact ih _ cx
  | note n k ih => exact .trans (.deed (.note cx n)) (ih _)
  | guarded key body k ihb ihk => exact andThen_course (guarding_course ihb) fun _ => ihk
  | attempt node symbol body k ihb ihk =>
    exact andThen_course (recover_course node symbol (ihb cx)) fun _ => ihk
  | «catch» body k ihb ihk =>
    have hbody := ihb cx
    unfold eval
    split <;> next hr =>
      rw [hr] at hbody
      first
      | exact hbody.trans (ihk _ _)
      | exact hbody
  | later body k _ ihk => exact .trans (.deed (.later cx body)) (ihk _)
  | drain k ih => exact andThen_course (hdrain cx) fun _ => ih
  | create slot factory body k _ _ ihk => exact andThen_course (obtain?_course hrun) ihk
  | summon recipe k ih => exact andThen_course (obtain?_course hrun) ih

/-- Places that are made are found, if draining keeps to a course. -/
def Locates (w : World) (site : Site) : Prop :=
  ∀ drain : Nat → Context → Reply Unit,
    (∀ room cx, Course w .any none cx (drain room cx).context) →
    ∀ (room : Nat) (place : Option Declaration) (cx cx' : Context) (c : Created),
      w.runWithin drain room Created (.entity (.location place)) cx = ⟨.done c, cx'⟩ →
      site cx' place c.label

theorem locates_any (w : World) : w.Locates .any :=
  fun _ _ _ _ _ _ _ _ => trivial

/-- Any program takes a course, at every depth. -/
theorem runWithin_walks {drain : Nat → Context → Reply Unit} (hsite : w.Locates site)
    (hdrain : ∀ room cx, Course w site none cx (drain room cx).context) (room : Nat) :
    Walks w site fun α p cx => w.runWithin drain room α p cx := by
  have hplace := hsite drain fun room cx => (hdrain room cx).lax
  induction room with
  | zero => exact ⟨eval_course (by simp) (hdrain 0), hplace 0⟩
  | succ room ih =>
    refine ⟨eval_course ?_ (hdrain (room + 1)), hplace (room + 1)⟩
    rintro run ⟨⟩
    exact ih

/-- Draining the queue is a course, by induction on the budget of turns. -/
theorem drainWithin_course (hsite : w.Locates site) (budget room : Nat) (cx : Context) :
    Course w site none cx (w.drainWithin budget room cx).context := by
  induction budget generalizing room cx with
  | zero =>
    unfold drainWithin
    split <;> exact .refl cx
  | succ budget ih =>
    unfold drainWithin
    split
    · exact .refl cx
    · next hq =>
      have hwalks := runWithin_walks hsite (fun room cx => ih room cx) room
      exact andThen_course (resume_course hwalks hq) fun _ cx => ih room cx

/-- A whole run is a course. -/
theorem run_course (hsite : w.Locates site) (budget : Nat) (p : Prog α) (cx : Context) :
    Course w site none cx (w.run budget p cx).context :=
  (runWithin_walks hsite (drainWithin_course hsite budget) _).course p cx

end World

end TrapFacts
