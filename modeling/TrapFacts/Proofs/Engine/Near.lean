import TrapFacts.Proofs.Engine.Twins

/-! Contexts that differ in diagnostics alone go on to do so, when programs run that do the same. -/

namespace TrapFacts

open Context (Twins)

variable {α β : Type} {w w' : World} {free last : Bool} {cx cx' : Context} {o : Outcome α}
  {r r' : Reply α} {run run' : Runner} {en : Entity} {l : Label} {body body' : Prog Unit}
  {slot : Slot}

/-- Two replies that differ in diagnostics alone. If failures are recovered from next, one may have
failed where the other has not. -/
structure Near (free last : Bool) (r r' : Reply α) : Prop where
  context : Twins free r.context r'.context
  outcome : r.outcome = r'.outcome ∨ last = true ∧ r.outcome.stops = false ∧
    r'.outcome.stops = false ∧ ¬ r.context.Alike r'.context

namespace Near

theorem of_twins (h : Twins free cx cx') : Near free last ⟨o, cx⟩ ⟨o, cx'⟩ :=
  ⟨h, .inl rfl⟩

/-- Where nothing may be left out at the end, the outcomes are the same. -/
theorem outcome_eq (h : Near free false r r') : r.outcome = r'.outcome :=
  h.outcome.resolve_right fun hlast => by cases hlast.1

theorem lax (h : Near free false r r') : Near free last r r' :=
  ⟨h.context, .inl h.outcome_eq⟩

theorem andThen {next next' : α → Context → Reply β} (h : Near free false r r')
    (hn : ∀ a cx cx', Twins free cx cx' → Near free last (next a cx) (next' a cx')) :
    Near free last (r.andThen next) (r'.andThen next') := by
  obtain ⟨o, cx⟩ := r
  obtain ⟨o', cx'⟩ := r'
  obtain rfl : o = o' := h.outcome_eq
  cases o with
  | done a => exact hn a cx cx' h.context
  | failed | exhausted => exact .of_twins h.context

end Near

/-- Ways to run programs that keep twins. -/
def KeepTwins (free : Bool) (run run' : Runner) : Prop :=
  ∀ {α : Type} {p p' : Prog α} {last : Bool} {cx cx' : Context}, p.Echoes free last p' →
    Twins free cx cx' → Near free last (run α p cx) (run' α p' cx')

namespace World

/-- Whether the entities of the catalog are made and described by discreet programs. -/
structure Discreet (w : World) : Prop where
  factory : ∀ recipe, (w.catalog recipe).factory.Discreet false
  body : ∀ recipe en l, ((w.catalog recipe).body en l).Discreet true

/-- Two worlds whose entities are made and described by programs that do the same. -/
structure Echoes (free : Bool) (w w' : World) : Prop where
  scope : w.scope = w'.scope
  attributed : w.model.attributed = w'.model.attributed
  slot : ∀ recipe, (w.catalog recipe).slot = (w'.catalog recipe).slot
  factory : ∀ recipe,
    (w.catalog recipe).factory.Echoes free false (w'.catalog recipe).factory
  body : ∀ recipe en l,
    ((w.catalog recipe).body en l).Echoes free true ((w'.catalog recipe).body en l)

theorem Discreet.echoes (hw : w.Discreet) : w.Echoes free w where
  scope := rfl
  attributed := rfl
  slot _ := rfl
  factory recipe := (hw.factory recipe).echoes
  body recipe en l := (hw.body recipe en l).echoes

/-- A failure that can be recovered from leaves nothing but its report. -/
theorem recover_diagnosedOnly {o : Outcome Unit} (w : World) (cx : Context) (about : Option Concern)
    (node : Option NodeId) (symbol : Option SymbolId) (h : o.stops = false) :
    (w.recover about node symbol ⟨o, cx⟩).outcome = .done () ∧
      cx.DiagnosedOnly (w.recover about node symbol ⟨o, cx⟩).context := by
  cases o with
  | done => exact ⟨rfl, .refl cx⟩
  | exhausted => cases h
  | failed e =>
    have he : e.isFatal = false := h
    simp only [recover, he]
    exact ⟨rfl, .send cx _ _⟩

/-- Guards do not tell twins apart. -/
theorem guarding_near {key : Key} {action action' : Context → Reply Unit}
    (hs : w.scope = w'.scope) (h : Twins free cx cx')
    (ha : ∀ cx cx', Twins free cx cx' → Near free last (action cx) (action' cx')) :
    Near free last (w.guarding key action cx) (w'.guarding key action' cx') := by
  unfold guarding
  rw [hs]
  split
  · exact ha cx cx' h
  · have hr := ha _ _ (h.openGuard key)
    exact ⟨hr.context.closeGuard, hr.outcome⟩

section

variable (hw : w.Echoes free w')

include hw

theorem Echoes.failureMessage (e : Failure) (node : Option NodeId) (symbol : Option SymbolId) :
    w.model.failureMessage e node symbol = w'.model.failureMessage e node symbol := by
  unfold Model.failureMessage
  rw [hw.attributed]

/-- Recovered from, failures make no difference. -/
theorem recover_near {r r' : Reply Unit} (about : Option Concern) (node : Option NodeId)
    (symbol : Option SymbolId) (h : Near free true r r') :
    Near free false (w.recover about node symbol r) (w'.recover about node symbol r') := by
  obtain ⟨o, cx⟩ := r
  obtain ⟨o', cx'⟩ := r'
  rcases h.outcome with heq | ⟨-, hs, hs', hn⟩
  · obtain rfl : o = o' := heq
    cases o with
    | done | exhausted => exact .of_twins h.context
    | failed e =>
      simp only [recover]
      split
      · exact .of_twins h.context
      · rw [hw.failureMessage]
        exact .of_twins (h.context.send _ _)
  · obtain ⟨hdone, hdiagnosed⟩ := recover_diagnosedOnly w cx about node symbol hs
    obtain ⟨hdone', hdiagnosed'⟩ := recover_diagnosedOnly w' cx' about node symbol hs'
    exact ⟨h.context.apart hn hdiagnosed hdiagnosed', .inl (hdone.trans hdone'.symm)⟩

variable (hrun : KeepTwins free run run')

include hrun

theorem describe_near (h : Twins free cx cx') (hb : body.Echoes free true body') :
    Near free false (w.describe run en l body cx) (w'.describe run' en l body' cx') :=
  recover_near hw _ _ _ (hrun hb (h.populating en l))

theorem populate_near (h : Twins free cx cx') (hb : body.Echoes free true body') :
    Near free false (w.populate run en l body cx) (w'.populate run' en l body' cx') := by
  unfold populate
  rw [h.agree Context.guards fun _ => rfl]
  split
  · let place := Prog.entity (.location en.reportingLocation?)
    have hplace : place.Echoes free false place := .summon _ .pure
    exact (hrun hplace h).andThen fun place cx cx' h =>
      guarding_near hw.scope h fun cx cx' h => describe_near hw hrun h hb
  · exact describe_near hw hrun h hb

theorem schedule_near (h : Twins free cx cx') (hb : body.Echoes free true body') :
    Near free false (w.schedule run en l body cx) (w'.schedule run' en l body' cx') := by
  unfold schedule
  rw [h.agree Context.guards fun _ => rfl]
  have hcomplain : ∀ plan, Twins free (w.complain plan en l cx) (w'.complain plan en l cx') := by
    intro plan
    unfold complain Model.complaint
    rw [hw.attributed]
    split
    · exact h.send _ _
    · exact h
  dsimp only
  split
  · exact .of_twins ((hcomplain _).enqueue (.population hb))
  · exact recover_near hw _ _ _ (populate_near hw hrun (hcomplain _) hb).lax

/-- A new entity is described alike for both twins, or put off for both. -/
theorem settle_near {body body' : Entity → Label → Prog Unit} (h : Twins free cx cx')
    (hb : ∀ en l, (body en l).Echoes free true (body' en l)) :
    Near free false (w.settle run slot body en cx) (w'.settle run' slot body' en cx') := by
  unfold settle
  rw [h.agree (Context.same? · slot en) fun _ => by cases slot <;> rfl]
  split
  · exact .of_twins h
  · obtain ⟨hc, hintroduced⟩ := h.introduce slot en
    simp only [hc]
    split
    · exact (schedule_near hw hrun hintroduced (hb _ _)).andThen fun _ _ _ h => .of_twins h
    · exact .of_twins hintroduced

theorem build_near {factory factory' : Prog Entity} {body body' : Entity → Label → Prog Unit}
    (h : Twins free cx cx') (hf : factory.Echoes free false factory')
    (hb : ∀ en l, (body en l).Echoes free true (body' en l)) :
    Near free false (w.build run slot factory body cx) (w'.build run' slot factory' body' cx') := by
  have hr : Near free false ((run Entity factory (cx.enter slot)).andThen (w.settle run slot body))
      ((run' Entity factory' (cx'.enter slot)).andThen (w'.settle run' slot body')) :=
    (hrun hf (h.enter slot)).andThen fun en _ _ h => settle_near hw hrun h hb
  exact ⟨hr.context.leave, .inl hr.outcome_eq⟩

end

inductive NestTwins (free : Bool) : Option Runner → Option Runner → Prop
  | none : NestTwins free none none
  | some {run run' : Runner} : KeepTwins free run run' → NestTwins free (some run) (some run')

section

variable (hw : w.Echoes free w')

include hw

theorem obtain?_near {deeper deeper' : Option Runner} {factory factory' : Prog Entity}
    {body body' : Entity → Label → Prog Unit} (hrun : NestTwins free deeper deeper')
    (h : Twins free cx cx') (hf : factory.Echoes free false factory')
    (hb : ∀ en l, (body en l).Echoes free true (body' en l)) :
    Near free false (w.obtain? deeper slot factory body cx)
      (w'.obtain? deeper' slot factory' body' cx') := by
  unfold obtain?
  rw [h.agree (Context.known? · slot) fun _ => by cases slot <;> rfl]
  cases cx'.known? slot with
  | some c => exact .of_twins (h.log _)
  | none =>
    cases hrun with
    | none =>
      have hmax : cx.extractor.config.maxRecursionDepth = cx'.extractor.config.maxRecursionDepth :=
        h.maxDepth
      dsimp only
      rw [hmax]
      exact .of_twins (h.log _)
    | some hrun => exact (build_near hw hrun h hf hb).andThen fun c _ _ h => .of_twins (h.log _)

theorem resume_near {a a' : Pending} (hrun : KeepTwins free run run') (h : Twins free cx cx')
    (ha : a.Echoes free a') : Near free false (w.resume run a cx) (w'.resume run' a' cx') := by
  obtain ⟨number, work⟩ := a
  obtain ⟨number', work'⟩ := a'
  obtain ⟨rfl, hwork⟩ := ha
  cases hwork with
  | population hb => exact recover_near hw _ _ _ (populate_near hw hrun (h.log _) hb).lax
  | @program guard _ _ hb =>
    refine recover_near hw _ _ _ ?_
    cases guard with
    | none => exact hrun hb (h.log _)
    | some key => exact guarding_near hw.scope h fun cx cx' h => hrun hb (h.log _)

end

/-- An error of the model that comes last changes nothing, tolerated or not. -/
theorem eval_modelError_pure {deeper : Option Runner} {drain : Context → Reply Unit} (a : α)
    (symbol : Option SymbolId) (text : String) (w : World) (cx : Context) :
    ∃ o : Outcome α, w.eval deeper drain (.modelError symbol text (.pure a)) cx = ⟨o, cx⟩ ∧
      o.stops = false := by
  unfold eval
  split
  · exact ⟨_, rfl, rfl⟩
  · exact ⟨_, rfl, rfl⟩

/-- An attempt at what fails comes to no more than a report. -/
theorem eval_attempt_fail {deeper : Option Runner} {drain : Context → Reply Unit} {e : Failure}
    {node : Option NodeId} {symbol : Option SymbolId} {k : Prog α} (he : e.isFatal = false) :
    w.eval deeper drain (.attempt node symbol (.fail e) k) cx =
      w.eval deeper drain k (cx.send (w.model.failureMessage e node symbol) none) := by
  have hrecover : w.recover none node symbol ⟨.failed e, cx⟩ =
      ⟨.done (), cx.send (w.model.failureMessage e node symbol) none⟩ := by
    simp only [recover, he]
    rfl
  change (w.recover none node symbol ⟨.failed e, cx⟩).andThen _ = _
  rw [hrecover]
  rfl

/-- Programs that do the same cannot tell twins apart. -/
theorem eval_near {deeper deeper' : Option Runner} {drain drain' : Context → Reply Unit}
    (hw : w.Echoes free w') (hrun : NestTwins free deeper deeper')
    (hdrain : ∀ cx cx', Twins free cx cx' → Near free false (drain cx) (drain' cx'))
    {p p' : Prog α} (hp : p.Echoes free last p') (h : Twins free cx cx') :
    Near free last (w.eval deeper drain p cx) (w'.eval deeper' drain' p' cx') := by
  induction hp generalizing cx cx' with
  | pure | fail => exact .of_twins h
  | fresh _ ih =>
    unfold eval
    rw [h.agree Context.nextLabel fun _ => rfl]
    exact ih _ (h.allocate.write _)
  | define key _ ih =>
    unfold eval
    rw [h.agree Context.nextLabel fun _ => rfl]
    exact ih _ (h.allocate.write _)
  | emit t _ ih => exact ih (h.write _)
  | send message _ ih => exact ih (h.send message none)
  | modelError symbol text a =>
    by_cases hs : cx.extractor.config.standalone = cx'.extractor.config.standalone
    · unfold eval
      rw [hs]
      split <;> exact .of_twins h
    -- One run goes on and the other one fails, but there is nothing to go on with.
    · obtain ⟨o, heq, ho⟩ := eval_modelError_pure a symbol text w cx
      obtain ⟨o', heq', ho'⟩ := eval_modelError_pure a symbol text w' cx'
      rw [heq, heq']
      exact ⟨h, .inr ⟨rfl, ho, ho', fun ha => hs ha.1⟩⟩
  | missingType name _ ih => exact ih (h.missingType name)
  | setAssemblyFile name file _ ih => exact ih (h.setAssemblyFile name file)
  | assemblyFile name _ ih =>
    unfold eval
    rw [h.files]
    exact ih _ h
  | openGenerics label _ ih =>
    unfold eval
    rw [h.agree Context.generics fun _ => rfl]
    exact ih _ (h.openGenerics label)
  | snapshot _ ih =>
    unfold eval
    rw [h.agree Context.snapshot fun cx => by simp [Context.snapshot, Context.muted, Context.stats]]
    exact ih _ h
  | note remark _ ih => exact ih (h.log _)
  | guarded key _ _ ihb ihk =>
    exact (guarding_near hw.scope h fun _ _ h => ihb h).andThen fun _ _ _ h => ihk h
  | attempt node symbol _ _ ihb ihk =>
    exact (recover_near hw none node symbol (ihb h)).andThen fun _ _ _ h => ihk h
  | later hb _ _ ihk =>
    unfold eval
    rw [h.agree Context.guards fun _ => rfl]
    exact ihk (h.enqueue (.program hb))
  | drain _ ih => exact (hdrain _ _ h).andThen fun _ _ _ h => ih h
  | create slot hf hb _ _ _ ihk =>
    exact (obtain?_near hw hrun h hf hb).andThen fun c _ _ h => ihk c h
  | summon recipe _ ih =>
    unfold eval
    dsimp only
    rw [hw.slot recipe]
    exact (obtain?_near hw hrun h (hw.factory recipe) (hw.body recipe)).andThen fun c _ _ h =>
      ih c h
  -- What fails is told about, which makes no difference to contexts that are not alike.
  | futile node symbol hfree he _ ih =>
    rw [eval_attempt_fail he]
    exact ih (h.apart (h.not_alike hfree) (.send cx _ _) (.refl cx'))
  | failed a hfree he => exact ⟨h, .inr ⟨rfl, he, rfl, h.not_alike hfree⟩⟩

/-- Queues that are drained alike in twin contexts, whatever room there is. -/
def DrainTwins (free : Bool) (drain drain' : Nat → Context → Reply Unit) : Prop :=
  ∀ n cx cx', Twins free cx cx' → Near free false (drain n cx) (drain' n cx')

/-- Twins stay near at every depth, if they do so while their queues are drained. -/
theorem runWithin_near {drain drain' : Nat → Context → Reply Unit} (hw : w.Echoes free w')
    (hdrain : DrainTwins free drain drain') (n : Nat) :
    KeepTwins free (fun α p cx => w.runWithin drain n α p cx)
      fun α p cx => w'.runWithin drain' n α p cx := by
  induction n with
  | zero => exact fun hp h => eval_near hw .none (hdrain 0) hp h
  | succ n ih => exact fun hp h => eval_near hw (.some ih) (hdrain (n + 1)) hp h

/-- Twins stay near while their queues are drained, turn by turn. -/
theorem drainWithin_near (hw : w.Echoes free w') (budget : Nat) :
    DrainTwins free (w.drainWithin budget) (w'.drainWithin budget) := by
  induction budget with
  | zero =>
    intro n cx cx' h
    have hqueue := h.queue
    unfold drainWithin
    cases hq : cx.queue <;> cases hq' : cx'.queue <;> rw [hq, hq'] at hqueue
    · exact .of_twins h
    · cases hqueue
    · cases hqueue
    · exact .of_twins h
  | succ budget ih =>
    intro n cx cx' h
    have hqueue := h.queue
    unfold drainWithin
    cases hq : cx.queue <;> cases hq' : cx'.queue <;> rw [hq, hq'] at hqueue
    · exact .of_twins h
    · cases hqueue
    · cases hqueue
    · obtain ⟨ha, -⟩ := List.forall₂_cons.1 hqueue
      have hresume := resume_near hw (runWithin_near hw ih n) (h.take hq hq') ha
      exact hresume.andThen fun _ cx cx' h => ih n cx cx' h

/-- Programs that echo each other run alike for twins. -/
theorem run_near {p p' : Prog α} (hw : w.Echoes free w') (budget : Nat)
    (hp : p.Echoes free last p') (h : Twins free cx cx') :
    Near free last (w.run budget p cx) (w'.run budget p' cx') := by
  have hroom : cx.extractor.config.maxRecursionDepth - cx.depth =
      cx'.extractor.config.maxRecursionDepth - cx'.depth :=
    congrArg₂ (· - ·) h.maxDepth (h.agree Context.depth fun _ => rfl)
  unfold run
  rw [hroom]
  exact runWithin_near hw (drainWithin_near hw budget) _ hp h

end World

end TrapFacts
