import TrapFacts.Entity.Facts
import TrapFacts.Proofs.Engine.Journal

/-! Complaints about missing guards are the engine's, as long as programs do not say the same. -/

namespace TrapFacts

variable {α β : Type} {w : World} {cx cx' : Context} {en : Entity} {l : Label} {slot : Slot}
  {run : Runner} {e : Event}

/-- A failure whose report reads like a complaint about a missing guard. -/
def Failure.Complains (e : Failure) : Prop :=
  ∃ symbol node, e = .internal Model.complaintText symbol node

namespace Prog

/-- A program that neither sends the text of a complaint itself nor fails with it. -/
def NeverComplains {α : Type} : Prog α → Prop
  | .pure _ => True
  | .fail e => ¬ e.Complains
  | .fresh k => ∀ l, (k l).NeverComplains
  | .define _ k => ∀ l, (k l).NeverComplains
  | .emit _ k => k.NeverComplains
  | .send message k => message.text ≠ Model.complaintText ∧ k.NeverComplains
  | .modelError _ text k => text ≠ Model.complaintText ∧ k.NeverComplains
  | .missingType _ k => k.NeverComplains
  | .setAssemblyFile _ _ k => k.NeverComplains
  | .assemblyFile _ k => ∀ file, (k file).NeverComplains
  | .openGenerics _ k => ∀ new, (k new).NeverComplains
  | .snapshot k => ∀ s, (k s).NeverComplains
  | .note _ k => k.NeverComplains
  | .guarded _ body k => body.NeverComplains ∧ k.NeverComplains
  | .attempt _ _ body k => body.NeverComplains ∧ k.NeverComplains
  | .catch body k =>
    body.NeverComplains ∧ ∀ r, (∀ e, r = .error e → ¬ e.Complains) → (k r).NeverComplains
  | .later body k => body.NeverComplains ∧ k.NeverComplains
  | .drain k => k.NeverComplains
  | .create _ factory body k =>
    factory.NeverComplains ∧ (∀ en l, (body en l).NeverComplains) ∧ ∀ c, (k c).NeverComplains
  | .summon _ k => ∀ c, (k c).NeverComplains

end Prog

/-- A world that makes and describes its entities without a complaint. -/
structure World.NeverComplains (w : World) : Prop where
  factory : ∀ recipe, (w.catalog recipe).factory.NeverComplains
  body : ∀ recipe en l, ((w.catalog recipe).body en l).NeverComplains

/-- An event whose message, if it reads like a complaint, is marked as the one about an entity. -/
def Event.Marked : Event → Prop
  | .sent message about => message.text = Model.complaintText → ∃ l, about = some (.missingGuard l)
  | _ => True

def Work.body : Work → Prog Unit
  | .program _ body => body
  | .population _ _ body => body

/-- What reads like a complaint so far is marked as one, and what waits to be run does not
complain. -/
structure Context.Marked (cx : Context) : Prop where
  events : ∀ e ∈ cx.events, e.Marked
  queue : ∀ a ∈ cx.queue, a.work.body.NeverComplains

structure Reply.Marked (r : Reply α) : Prop where
  context : r.context.Marked
  failure : ∀ e, r.outcome = .failed e → ¬ e.Complains

/-- A way to run programs that marks the complaints it adds. -/
def Runner.Marked (run : Runner) : Prop :=
  ∀ ⦃α : Type⦄ ⦃p : Prog α⦄ ⦃cx : Context⦄, p.NeverComplains → cx.Marked → (run α p cx).Marked

/-- A text that begins differently than a complaint. -/
theorem append_ne_complaintText {s t : String} (hs : s ≠ "") (h : ¬ s.toList.head? = some 'T') :
    s ++ t ≠ Model.complaintText := by
  intro heq
  have hlist : s.toList ++ t.toList = Model.complaintText.toList := by
    rw [← heq, String.toList_append]
  cases hc : s.toList with
  | nil => exact hs (String.toList_eq_nil_iff.1 hc)
  | cons c cs =>
    rw [hc, List.cons_append] at hlist
    rw [hc] at h
    exact h (congrArg List.head? hlist)

namespace Model

variable (m : Model)

theorem text_attributed (symbol : Option SymbolId) (message : Message) :
    (m.attributed symbol message).text = message.text := by
  cases symbol <;> rfl

theorem text_complaint (en : Entity) : (m.complaint en).text = complaintText :=
  m.text_attributed _ _

/-- Only the report of such a failure reads like a complaint. -/
theorem complains_of_text {e : Failure} {node : Option NodeId} {symbol : Option SymbolId}
    (h : (m.failureMessage e node symbol).text = complaintText) : e.Complains := by
  unfold failureMessage at h
  rw [text_attributed] at h
  cases e with
  | internal text s n => exact ⟨s, n, congrArg (Failure.internal · s n) h⟩
  | _ =>
    have hne : (Message.error "Uncaught exception").text ≠ complaintText := by decide
    exact absurd h hne

end Model

namespace Context.Marked

theorem fresh (x : Extractor) : Context.Marked { extractor := x } :=
  ⟨by simp [Context.events, Context.moments], by simp⟩

theorem event (h : cx.Marked) (he : cx'.events = cx.events ++ [e]) (hq : cx'.queue = cx.queue)
    (hm : e.Marked) : cx'.Marked where
  events e' he' := by
    rw [he, List.mem_append, List.mem_singleton] at he'
    rcases he' with he' | rfl
    · exact h.events e' he'
    · exact hm
  queue := hq ▸ h.queue

theorem still (h : cx.Marked) (he : cx'.events = cx.events) (hq : cx'.queue = cx.queue) :
    cx'.Marked :=
  ⟨he ▸ h.events, hq ▸ h.queue⟩

theorem log (h : cx.Marked) (hm : e.Marked) : (cx.log e).Marked :=
  h.event (cx.events_log e) rfl hm

theorem enqueue (h : cx.Marked) {work : Work} (hw : work.body.NeverComplains) :
    (cx.enqueue work).Marked where
  events e he := by
    rw [cx.events_enqueue, List.mem_append, List.mem_singleton] at he
    rcases he with he | rfl
    · exact h.events e he
    · trivial
  queue a ha := by
    rw [show (cx.enqueue work).queue = cx.queue ++ [⟨cx.deferred, work⟩] from rfl, List.mem_append,
      List.mem_singleton] at ha
    rcases ha with ha | rfl
    · exact h.queue a ha
    · exact hw

theorem take (h : cx.Marked) {a : Pending} {rest : List Pending} (hq : cx.queue = a :: rest) :
    (cx.take a rest).Marked where
  events e he := by
    rw [cx.events_take, List.mem_append, List.mem_singleton] at he
    rcases he with he | rfl
    · exact h.events e he
    · trivial
  queue b hb := h.queue b (hq ▸ List.mem_cons_of_mem _ hb)

theorem introduce (h : cx.Marked) (slot : Slot) (en : Entity) :
    (cx.introduce slot en).2.Marked where
  events e he := by
    rw [cx.events_introduce, List.append_assoc, List.mem_append, List.mem_append] at he
    rcases he with he | he | he
    · exact h.events e he
    · rw [cx.eq_of_mem_collision he]
      intro htext
      exact absurd htext (append_ne_complaintText (by decide) (by decide))
    · simp only [List.mem_cons, List.not_mem_nil, or_false] at he
      rcases he with rfl | rfl <;> trivial
  queue := cx.queue_introduce slot en ▸ h.queue

end Context.Marked

namespace Reply.Marked

theorem done {a : α} (h : cx.Marked) : (⟨.done a, cx⟩ : Reply α).Marked :=
  ⟨h, by rintro _ ⟨⟩⟩

theorem andThen {r : Reply α} {next : α → Context → Reply β} (h : r.Marked)
    (hn : ∀ a cx, cx.Marked → (next a cx).Marked) : (r.andThen next).Marked := by
  obtain ⟨o, cx⟩ := r
  cases o with
  | done a => exact hn a cx h.context
  | failed e => exact ⟨h.context, by rintro _ ⟨⟩; exact h.failure e rfl⟩
  | exhausted => exact ⟨h.context, by rintro _ ⟨⟩⟩

end Reply.Marked

namespace World

/-- A report of a failure that does not complain is no complaint. -/
theorem recover_marked (about : Option Concern) (node : Option NodeId) (symbol : Option SymbolId)
    {r : Reply Unit} (h : r.Marked) : (w.recover about node symbol r).Marked := by
  obtain ⟨o, cx⟩ := r
  cases o with
  | done | exhausted => exact h
  | failed e =>
    cases he : e.isFatal with
    | true => simpa only [recover, he, if_true] using h
    | false =>
      simp only [recover, he]
      refine .done (h.context.event (cx.events_send _ _) rfl fun htext => ?_)
      exact absurd (w.model.complains_of_text htext) (h.failure e rfl)

theorem guarding_marked {key : Key} {action : Context → Reply Unit}
    (h : ∀ cx, cx.Marked → (action cx).Marked) (hcx : cx.Marked) :
    (w.guarding key action cx).Marked := by
  unfold guarding
  split
  · exact h cx hcx
  · have hinner := h _ (hcx.event (cx.events_openGuard key) rfl trivial)
    exact ⟨hinner.context.event (Context.events_closeGuard _) rfl trivial, hinner.failure⟩

/-- What the engine says of a missing guard is marked as its complaint. -/
theorem complain_marked {plan : Plan} (h : cx.Marked) : (w.complain plan en l cx).Marked := by
  unfold complain
  split
  · exact h.event (cx.events_send _ _) rfl fun _ => ⟨l, rfl⟩
  · exact h

section

variable {body : Prog Unit} (hrun : run.Marked) (hbody : body.NeverComplains)

include hrun hbody

theorem describe_marked (h : cx.Marked) : (w.describe run en l body cx).Marked :=
  recover_marked _ _ _ (hrun hbody (h.event (cx.events_populating en l) rfl trivial))

theorem populate_marked (h : cx.Marked) : (w.populate run en l body cx).Marked := by
  have hdescribe : ∀ cx, cx.Marked → (w.describe run en l body cx).Marked :=
    fun _ => describe_marked hrun hbody
  unfold populate
  split
  · have hplace : (Prog.entity (.location en.reportingLocation?)).NeverComplains := fun _ => trivial
    exact (hrun hplace h).andThen fun _ _ => guarding_marked hdescribe
  · exact hdescribe cx h

theorem schedule_marked (h : cx.Marked) : (w.schedule run en l body cx).Marked := by
  unfold schedule
  dsimp only
  split
  · exact .done ((complain_marked h).enqueue hbody)
  · exact recover_marked _ _ _ (populate_marked hrun hbody (complain_marked h))

end

theorem settle_marked {body : Entity → Label → Prog Unit} (hrun : run.Marked)
    (hbody : ∀ en l, (body en l).NeverComplains) (h : cx.Marked) :
    (w.settle run slot body en cx).Marked := by
  unfold settle
  split
  · exact .done h
  · dsimp only
    split
    · exact (schedule_marked hrun (hbody _ _) (h.introduce slot en)).andThen fun _ _ => .done
    · exact .done (h.introduce slot en)

theorem resume_marked (hrun : run.Marked) {a : Pending} (ha : a.work.body.NeverComplains)
    (h : cx.Marked) : (w.resume run a cx).Marked := by
  obtain ⟨number, work⟩ := a
  cases work with
  | population => exact recover_marked _ _ _ (populate_marked hrun ha (h.log trivial))
  | program guard body =>
    have hbody : ∀ cx : Context, cx.Marked → (run Unit body (cx.log (.began number))).Marked :=
      fun _ hcx => hrun ha (hcx.log trivial)
    refine recover_marked none none none ?_
    cases guard with
    | none => exact hbody cx h
    | some key => exact guarding_marked hbody h

variable {deeper : Option Runner} {drain : Context → Reply Unit}

theorem obtain?_marked {factory : Prog Entity} {body : Entity → Label → Prog Unit}
    (hrun : ∀ run, deeper = some run → run.Marked) (hf : factory.NeverComplains)
    (hbody : ∀ en l, (body en l).NeverComplains) (h : cx.Marked) :
    (w.obtain? deeper slot factory body cx).Marked := by
  unfold obtain?
  cases cx.known? slot with
  | some c => exact .done (h.log trivial)
  | none =>
    cases deeper with
    | none => exact ⟨h.log trivial, by rintro _ ⟨⟩ ⟨_, _, ⟨⟩⟩⟩
    | some run =>
      have hrun := hrun run rfl
      have hentered : (cx.enter slot).Marked := h.event (cx.events_enter slot) rfl trivial
      have hmade : ((run Entity factory (cx.enter slot)).andThen
          (w.settle run slot body)).Marked :=
        (hrun hf hentered).andThen fun _ _ => settle_marked hrun hbody
      have hbuilt : (w.build run slot factory body cx).Marked :=
        ⟨hmade.context.still rfl rfl, hmade.failure⟩
      exact hbuilt.andThen fun _ _ hcx => .done (hcx.log trivial)

/-- One step of a program that never complains sends no complaint but the engine's own. -/
theorem eval_marked (hw : w.NeverComplains) (hrun : ∀ run, deeper = some run → run.Marked)
    (hdrain : ∀ cx : Context, cx.Marked → (drain cx).Marked) {p : Prog α} (hp : p.NeverComplains)
    (h : cx.Marked) : (w.eval deeper drain p cx).Marked := by
  induction p generalizing cx with
  | pure a => exact .done h
  | fail e => exact ⟨h, by rintro _ ⟨⟩; exact hp⟩
  | fresh k ih => exact ih _ (hp _) (h.event (cx.allocate.events_write _) rfl trivial)
  | define key k ih => exact ih _ (hp _) (h.event (cx.allocate.events_write _) rfl trivial)
  | emit t k ih => exact ih hp (h.event (cx.events_write _) rfl trivial)
  | send message k ih =>
    exact ih hp.2 (h.event (cx.events_send _ _) rfl fun htext => absurd htext hp.1)
  | modelError symbol text k ih =>
    unfold eval
    split
    · exact ih hp.2 h
    · refine ⟨h, ?_⟩
      rintro _ ⟨⟩ ⟨_, _, heq⟩
      cases heq
      exact hp.1 rfl
  | missingType n k ih => exact ih hp (h.event (cx.events_missingType n) rfl trivial)
  | setAssemblyFile n file k ih => exact ih hp (h.still rfl rfl)
  | assemblyFile n k ih => exact ih _ (hp _) h
  | openGenerics l k ih => exact ih _ (hp _) (h.still rfl rfl)
  | snapshot k ih => exact ih _ (hp _) h
  | note n k ih => exact ih hp (h.log trivial)
  | guarded key body k ihb ihk =>
    exact (guarding_marked (fun _ => ihb hp.1) h).andThen fun _ _ => ihk hp.2
  | attempt node symbol body k ihb ihk =>
    exact (recover_marked none node symbol (ihb hp.1 h)).andThen fun _ _ => ihk hp.2
  | «catch» body k ihb ihk =>
    have hbody := ihb hp.1 h
    unfold eval
    split
    · next hr =>
      rw [hr] at hbody
      exact ihk _ (hp.2 _ (by rintro _ ⟨⟩)) hbody.context
    · next hr =>
      rw [hr] at hbody
      refine ihk _ (hp.2 _ ?_) hbody.context
      rintro _ ⟨⟩
      exact hbody.failure _ rfl
    · next hr =>
      rw [hr] at hbody
      exact ⟨hbody.context, by rintro _ ⟨⟩⟩
  | later body k _ ihk => exact ihk hp.2 (h.enqueue hp.1)
  | drain k ih => exact (hdrain cx h).andThen fun _ _ => ih hp
  | create slot factory body k _ _ ihk =>
    exact (obtain?_marked hrun hp.1 hp.2.1 h).andThen fun c _ => ihk c (hp.2.2 c)
  | summon recipe k ih =>
    exact (obtain?_marked hrun (hw.factory _) (hw.body _) h).andThen fun c _ => ih c (hp c)

/-- At every depth, programs that never complain send no complaints but the engine's. -/
theorem runWithin_marked (hw : w.NeverComplains) {drain : Nat → Context → Reply Unit}
    (hdrain : ∀ room (cx : Context), cx.Marked → (drain room cx).Marked) (room : Nat) :
    Runner.Marked fun α p cx => w.runWithin drain room α p cx := by
  induction room with
  | zero => exact fun _ _ _ => eval_marked hw (by rintro _ ⟨⟩) (hdrain 0)
  | succ room ih => exact fun _ _ _ => eval_marked hw (by rintro _ ⟨⟩; exact ih) (hdrain (room + 1))

/-- Draining the queue sends no complaints but the engine's. -/
theorem drainWithin_marked (hw : w.NeverComplains) (budget room : Nat) (h : cx.Marked) :
    (w.drainWithin budget room cx).Marked := by
  induction budget generalizing room cx with
  | zero =>
    unfold drainWithin
    split
    · exact .done h
    · exact ⟨h, by rintro _ ⟨⟩⟩
  | succ budget ih =>
    unfold drainWithin
    split
    · exact .done h
    · next hq =>
      have hrun := runWithin_marked hw (fun room _ => ih room) room
      have ha := h.queue _ (hq ▸ List.mem_cons_self)
      exact (resume_marked hrun ha (h.take hq)).andThen fun _ _ => ih room

/-- Whatever reads like a complaint after a run is marked as one. -/
theorem run_marked (hw : w.NeverComplains) (budget : Nat) {p : Prog α} (hp : p.NeverComplains)
    (h : cx.Marked) : (w.run budget p cx).Marked :=
  runWithin_marked hw (fun room _ => drainWithin_marked hw budget room) _ hp h

end World

end TrapFacts
