import TrapFacts.Proofs.Engine.Renumbered

/-! Runs do not depend on how symbols are numbered, if their worlds do not. -/

namespace TrapFacts

variable {σ : Equiv.Perm SymbolId} {α β : Type} {g : α → α} {w w' : World} {cx cx' : Context}
  {run run' : Runner} {deeper deeper' : Option Runner} {slot : Slot} {en : Entity} {l : Label}

inductive Outcome.Renumbered (σ : Equiv.Perm SymbolId) (g : α → α) : Outcome α → Outcome α → Prop
  | done (a : α) : Renumbered σ g (.done a) (.done (g a))
  | failed {e e' : Failure} : e.Renumbered σ e' → Renumbered σ g (.failed e) (.failed e')
  | exhausted : Renumbered σ g .exhausted .exhausted

/-- The same reply but for the numbers of symbols. -/
structure Reply.Renumbered (σ : Equiv.Perm SymbolId) (g : α → α) (r r' : Reply α) : Prop where
  outcome : r.outcome.Renumbered σ g r'.outcome
  context : r.context.Renumbered σ r'.context

theorem Reply.Renumbered.andThen {h : β → β} {r r' : Reply α} {next next' : α → Context → Reply β}
    (hr : r.Renumbered σ g r') (hn : ∀ a cx cx', cx.Renumbered σ cx' →
      (next a cx).Renumbered σ h (next' (g a) cx')) :
    (r.andThen next).Renumbered σ h (r'.andThen next') := by
  obtain ⟨o, cx⟩ := r
  obtain ⟨o', cx'⟩ := r'
  obtain ⟨ho, hcx⟩ := hr
  cases ho with
  | done a => exact hn a cx cx' hcx
  | failed he => exact ⟨.failed he, hcx⟩
  | exhausted => exact ⟨.exhausted, hcx⟩

/-- Ways to run programs by which contexts stay the same but for the numbers of symbols. -/
def KeepRenumbered (σ : Equiv.Perm SymbolId) (run run' : Runner) : Prop :=
  ∀ {α : Type} {g : α → α} {p p' : Prog α} {cx cx' : Context}, p.Renumbered σ g p' →
    cx.Renumbered σ cx' → (run α p cx).Renumbered σ g (run' α p' cx')

inductive NestRenumbered (σ : Equiv.Perm SymbolId) : Option Runner → Option Runner → Prop
  | none : NestRenumbered σ none none
  | some {run run' : Runner} : KeepRenumbered σ run run' → NestRenumbered σ (some run) (some run')

namespace World

/-- Two worlds that are the same but for the numbers of symbols. -/
structure Renumbered (σ : Equiv.Perm SymbolId) (w w' : World) : Prop where
  scope : w.scope = w'.scope
  attributed : ∀ symbol message,
    w'.model.attributed (symbol.map σ) message = w.model.attributed symbol message
  slot : ∀ recipe, (w'.catalog (recipe.renumber σ)).slot = (w.catalog recipe).slot.renumber σ
  factory : ∀ recipe, (w.catalog recipe).factory.Renumbered σ (Entity.renumber σ)
    (w'.catalog (recipe.renumber σ)).factory
  body : ∀ recipe en l, ((w.catalog recipe).body en l).Renumbered σ id
    ((w'.catalog (recipe.renumber σ)).body (en.renumber σ) l)

theorem guarding_renumbered {key : Key} {action action' : Context → Reply Unit}
    (hs : w.scope = w'.scope) (h : cx.Renumbered σ cx')
    (ha : ∀ cx cx', cx.Renumbered σ cx' → (action cx).Renumbered σ id (action' cx')) :
    (w.guarding key action cx).Renumbered σ id (w'.guarding key action' cx') := by
  unfold guarding
  rw [hs]
  split
  · exact ha cx cx' h
  · have hr := ha _ _ (h.openGuard key)
    exact ⟨hr.outcome, hr.context.closeGuard⟩

section

variable (hw : w.Renumbered σ w')

include hw

/-- A failure is reported alike, whatever the numbers are. -/
theorem Renumbered.failureMessage {e e' : Failure} (he : e.Renumbered σ e') (node : Option NodeId)
    (symbol : Option SymbolId) :
    w'.model.failureMessage e' node (symbol.map σ) = w.model.failureMessage e node symbol := by
  have hsymbol : (symbol.map σ).or e'.symbol? = (symbol.or e.symbol?).map σ := by
    rw [Option.map_or]
    -- A number that is told is no other one, so it is also that of the renumbered symbol.
    cases he with
    | internal => rfl
    | unknownSymbol hid => simp [Failure.symbol?, hid]
    | same hnone => rw [hnone, Option.map_none]
  unfold Model.failureMessage
  rw [hsymbol, hw.attributed]
  cases he <;> rfl

theorem recover_renumbered {r r' : Reply Unit} (about : Option Concern) (node : Option NodeId)
    (symbol : Option SymbolId) (h : r.Renumbered σ id r') :
    (w.recover about node symbol r).Renumbered σ id
      (w'.recover about node (symbol.map σ) r') := by
  obtain ⟨o, cx⟩ := r
  obtain ⟨o', cx'⟩ := r'
  obtain ⟨ho, hcx⟩ := h
  cases ho with
  | done a => exact ⟨.done a, hcx⟩
  | exhausted => exact ⟨.exhausted, hcx⟩
  | failed he =>
    simp only [recover, he.isFatal, hw.failureMessage he]
    split
    · exact ⟨.failed he, hcx⟩
    · exact ⟨.done (), hcx.send _ _⟩

variable (hrun : KeepRenumbered σ run run')

include hrun

theorem describe_renumbered {body body' : Prog Unit} (h : cx.Renumbered σ cx')
    (hb : body.Renumbered σ id body') :
    (w.describe run en l body cx).Renumbered σ id
      (w'.describe run' (en.renumber σ) l body' cx') := by
  unfold describe
  rw [Entity.symbol?_renumber]
  exact recover_renumbered hw _ _ _ (hrun hb (h.populating en (en.renumber σ) l))

theorem populate_renumbered {body body' : Prog Unit} (h : cx.Renumbered σ cx')
    (hb : body.Renumbered σ id body') :
    (w.populate run en l body cx).Renumbered σ id
      (w'.populate run' (en.renumber σ) l body' cx') := by
  unfold populate
  rw [h.agree Context.guards fun _ => rfl, Entity.behavior_renumber,
    Entity.reportingLocation?_renumber]
  split
  · let recipe : Recipe := .location en.reportingLocation?
    have hplace : (Prog.entity recipe).Renumbered σ (Created.renumber σ) (Prog.entity recipe) :=
      .entity recipe
    exact (hrun hplace h).andThen fun place cx cx' h =>
      guarding_renumbered hw.scope h fun cx cx' h => describe_renumbered hw hrun h hb
  · exact describe_renumbered hw hrun h hb

theorem schedule_renumbered {body body' : Prog Unit} (h : cx.Renumbered σ cx')
    (hb : body.Renumbered σ id body') :
    (w.schedule run en l body cx).Renumbered σ id
      (w'.schedule run' (en.renumber σ) l body' cx') := by
  have hcomplain : ∀ plan, (w.complain plan en l cx).Renumbered σ
      (w'.complain plan (en.renumber σ) l cx') := by
    intro plan
    unfold complain Model.complaint
    rw [Entity.symbol?_renumber, hw.attributed]
    split
    · exact h.send _ _
    · exact h
  unfold schedule
  rw [h.agree Context.guards fun _ => rfl, Entity.behavior_renumber, Entity.symbol?_renumber]
  dsimp only
  split
  · exact ⟨.done (), (hcomplain _).enqueue (.population hb)⟩
  · exact recover_renumbered hw _ _ _ (populate_renumbered hw hrun (hcomplain _) hb)

/-- A new entity is settled alike in both contexts. -/
theorem settle_renumbered {body body' : Entity → Label → Prog Unit} (h : cx.Renumbered σ cx')
    (hb : ∀ en l, (body en l).Renumbered σ id (body' (en.renumber σ) l)) :
    (w.settle run slot body en cx).Renumbered σ (Created.renumber σ)
      (w'.settle run' (slot.renumber σ) body' (en.renumber σ) cx') := by
  unfold settle
  rw [h.same? slot en]
  cases cx.same? slot en with
  | some c => exact ⟨.done c, h⟩
  | none =>
    obtain ⟨hc, hintroduced⟩ := h.introduce slot en
    simp only [Option.map_none, hc, Entity.needsPopulation_renumber]
    split
    · refine (schedule_renumbered hw hrun hintroduced (hb _ _)).andThen fun _ cx cx' h => ?_
      exact ⟨.done _, h⟩
    · exact ⟨.done _, hintroduced⟩

/-- A creation comes to the renumbered entity. -/
theorem build_renumbered {factory factory' : Prog Entity} {body body' : Entity → Label → Prog Unit}
    (h : cx.Renumbered σ cx') (hf : factory.Renumbered σ (Entity.renumber σ) factory')
    (hb : ∀ en l, (body en l).Renumbered σ id (body' (en.renumber σ) l)) :
    (w.build run slot factory body cx).Renumbered σ (Created.renumber σ)
      (w'.build run' (slot.renumber σ) factory' body' cx') := by
  have hmade := hrun hf (h.enter slot (slot.renumber σ))
  have hr : Reply.Renumbered σ (Created.renumber σ)
      ((run Entity factory (cx.enter slot)).andThen (w.settle run slot body))
      ((run' Entity factory' (cx'.enter (slot.renumber σ))).andThen
        (w'.settle run' (slot.renumber σ) body')) :=
    hmade.andThen fun en _ _ h => settle_renumbered hw hrun h hb
  exact ⟨hr.outcome, hr.context.leave⟩

theorem resume_renumbered {a a' : Pending} (h : cx.Renumbered σ cx') (ha : a.Renumbered σ a') :
    (w.resume run a cx).Renumbered σ id (w'.resume run' a' cx') := by
  obtain ⟨number, work⟩ := a
  obtain ⟨number', work'⟩ := a'
  obtain ⟨rfl, hwork⟩ := ha
  cases hwork with
  | @population en l body body' hb =>
    simp only [resume, Entity.symbol?_renumber]
    exact recover_renumbered hw _ _ _ (populate_renumbered hw hrun (h.log rfl) hb)

end

section

variable (hw : w.Renumbered σ w') (hrun : NestRenumbered σ deeper deeper')

include hw hrun

/-- The entity of a slot is obtained under the same label, known or not. -/
theorem obtain?_renumbered {factory factory' : Prog Entity}
    {body body' : Entity → Label → Prog Unit} (h : cx.Renumbered σ cx')
    (hf : factory.Renumbered σ (Entity.renumber σ) factory')
    (hb : ∀ en l, (body en l).Renumbered σ id (body' (en.renumber σ) l)) :
    (w.obtain? deeper slot factory body cx).Renumbered σ (Created.renumber σ)
      (w'.obtain? deeper' (slot.renumber σ) factory' body' cx') := by
  unfold obtain?
  rw [h.known? slot]
  cases cx.known? slot with
  | some c => exact ⟨.done c, h.log rfl⟩
  | none =>
    cases hrun with
    | none =>
      have hextractor : cx.extractor = cx'.extractor := h.agree _ fun _ => rfl
      dsimp only [Option.map_none]
      rw [hextractor]
      exact ⟨.failed (.same rfl), h.log rfl⟩
    | some hrun =>
      refine (build_renumbered hw hrun h hf hb).andThen fun c cx cx' h => ?_
      exact ⟨.done c, h.log rfl⟩

/-- The same program on renumbered symbols ends alike. -/
theorem eval_renumbered {drain drain' : Context → Reply Unit}
    (hdrain : ∀ cx cx', cx.Renumbered σ cx' → (drain cx).Renumbered σ id (drain' cx'))
    {p p' : Prog α} (hp : p.Renumbered σ g p') (h : cx.Renumbered σ cx') :
    (w.eval deeper drain p cx).Renumbered σ g (w'.eval deeper' drain' p' cx') := by
  induction hp generalizing cx cx' with
  | pure a => exact ⟨.done a, h⟩
  | fail he => exact ⟨.failed he, h⟩
  | fresh _ ih =>
    unfold eval
    rw [h.agree Context.nextLabel fun _ => rfl]
    exact ih _ (h.allocate.write _)
  | emit t _ ih => exact ih (h.write _)
  | modelError symbol text _ ih =>
    unfold eval
    rw [h.agree (·.extractor.config.standalone) fun _ => rfl]
    split
    · exact ih h
    · exact ⟨.failed (.internal text symbol none), h⟩
  | missingType name _ ih => exact ih (h.missingType name)
  | assemblyFile name _ ih =>
    unfold eval
    rw [h.agree (·.extractor.assemblyFile? name) fun _ => rfl]
    exact ih _ h
  | openGenerics label _ ih =>
    unfold eval
    rw [h.agree Context.generics fun _ => rfl]
    exact ih _ (h.openGenerics label)
  | attempt node symbol _ _ ihb ihk =>
    exact (recover_renumbered hw none node symbol (ihb h)).andThen fun _ _ _ h => ihk h
  | drain _ ih => exact (hdrain _ _ h).andThen fun _ _ _ h => ih h
  | summon recipe _ ih =>
    unfold eval
    dsimp only
    rw [hw.slot recipe]
    exact (obtain?_renumbered hw hrun h (hw.factory recipe) (hw.body recipe)).andThen
      fun c _ _ h => ih c h

end

/-- Queues that are drained alike, whatever room there is and whatever the numbers of symbols. -/
def DrainRenumbered (σ : Equiv.Perm SymbolId) (drain drain' : Nat → Context → Reply Unit) : Prop :=
  ∀ n cx cx', cx.Renumbered σ cx' → (drain n cx).Renumbered σ id (drain' n cx')

/-- Renumbered programs run alike at every depth. -/
theorem runWithin_renumbered {drain drain' : Nat → Context → Reply Unit} (hw : w.Renumbered σ w')
    (hdrain : DrainRenumbered σ drain drain') (n : Nat) :
    KeepRenumbered σ (fun α p cx => w.runWithin drain n α p cx)
      fun α p cx => w'.runWithin drain' n α p cx := by
  induction n with
  | zero => exact fun hp h => eval_renumbered hw .none (hdrain 0) hp h
  | succ n ih => exact fun hp h => eval_renumbered hw (.some ih) (hdrain (n + 1)) hp h

/-- Renumbered queues are drained alike. -/
theorem drainWithin_renumbered (hw : w.Renumbered σ w') (budget : Nat) :
    DrainRenumbered σ (w.drainWithin budget) (w'.drainWithin budget) := by
  induction budget with
  | zero =>
    intro n cx cx' h
    have hqueue := h.queue
    unfold drainWithin
    generalize cx.queue = queue at hqueue
    generalize cx'.queue = queue' at hqueue
    cases hqueue with
    | nil => exact ⟨.done (), h⟩
    | cons => exact ⟨.exhausted, h⟩
  | succ budget ih =>
    intro n cx cx' h
    have hqueue := h.queue
    unfold drainWithin
    generalize cx.queue = queue at hqueue
    generalize cx'.queue = queue' at hqueue
    cases hqueue with
    | nil => exact ⟨.done (), h⟩
    | @cons a a' rest rest' ha hrest =>
      have hresume :=
        resume_renumbered hw (runWithin_renumbered hw ih n) (h.take a a' hrest) ha
      exact hresume.andThen fun _ cx cx' h => ih n cx cx' h

/-- A run does not depend on how symbols are numbered. -/
theorem run_renumbered {p p' : Prog α} (hw : w.Renumbered σ w') (budget : Nat)
    (hp : p.Renumbered σ g p') (h : cx.Renumbered σ cx') :
    (w.run budget p cx).Renumbered σ g (w'.run budget p' cx') := by
  have hroom : cx.room = cx'.room := h.agree Context.room fun _ => rfl
  change (w.runWithin _ cx.room α p cx).Renumbered σ g (w'.runWithin _ cx'.room α p' cx')
  rw [hroom]
  exact runWithin_renumbered hw (drainWithin_renumbered hw budget) _ hp h

end World

end TrapFacts
