import TrapFacts.Proofs.Engine.Identity
import TrapFacts.Proofs.Engine.Recovery
import TrapFacts.Proofs.Engine.StatesOnly

/-! A program with the entities that it summons, and what it adds: every entity that it makes is
shown or waits. -/

namespace TrapFacts

variable {α β : Type} {w : World} {desc : Entity → Label → Prog Unit} {P : DescriptionSpec}
  {b : Bool}
  {cx cx₁ cx' : Context} {en : Entity} {l : Label} {slot : Slot} {run : Runner}
  {mine : Label → Prop}

/-- A reply that adds no more than it may. -/
abbrev Reply.Adds (desc : Entity → Label → Prog Unit) (P : DescriptionSpec) (mine : Label → Prop)
    (cx : Context) (r : Reply α) : Prop :=
  TrapFacts.Adds desc P mine r.outcome.stops cx r.context

/-- What a reply returns, and how it fails unless that is fatal. -/
structure Reply.Comes (r : Reply α) (good : α → Context → Prop) (bad : Failure → Prop) : Prop where
  result : ∀ a, r.outcome = .done a → good a r.context
  failure : ∀ e, r.outcome = .failed e → e.isFatal = false → bad e

/-- What the making of an entity returns: what the factory made, as far as the entity was made for
the occasion. -/
def DescriptionSpec.Returns (P : DescriptionSpec) (w : World) (recipe : Recipe) (c : Created)
    (cx : Context) :
    Prop :=
  .served (w.catalog recipe).slot c ∈ cx.events ∧
    ((w.catalog recipe).slot = .value → P.yields recipe c.entity cx)

/-- Describe an entity and report what goes wrong, its place included. -/
def World.attend (w : World) (run : Runner) (en : Entity) (l : Label) (body : Prog Unit)
    (cx : Context) : Reply Unit :=
  w.recover (some (.failure l)) none en.symbol? (w.populate run en l body cx)

/-- A way to run programs by which every description shows its entity. -/
structure RunnerShows (w : World) (desc : Entity → Label → Prog Unit) (P : DescriptionSpec)
    (run : Runner) :
    Prop where
  adds : ∀ {α : Type} {p : Prog α} {mine : Label → Prop} {cx : Context}, p.StatesOnly mine →
    cx.FactsBehind → (∀ l, mine l → l.number ≤ cx.labels) → (run α p cx).Adds desc P mine cx
  factory : ∀ {recipe cx}, cx.FactsBehind →
    (run Entity (w.catalog recipe).factory cx).Comes (P.yields recipe) (P.fails recipe)
  shows : ∀ {en l cx}, cx.FactsBehind → l.number ≤ cx.labels → cx.factsAbout l = [] →
    (w.attend run en l (desc en l) cx).outcome.stops = false →
    P.shows en l (w.attend run en l (desc en l) cx).context

/-- A world whose factories state no facts, and whose descriptions state facts about their own
labels alone. -/
structure World.StatesOwn (w : World) (desc : Entity → Label → Prog Unit) : Prop where
  body : ∀ recipe, (w.catalog recipe).body = desc
  factless : ∀ recipe, (w.catalog recipe).factory.Factless
  own : ∀ en l, (desc en l).StatesOnly (· = l)

/-- A world in which entities are made and shown as the specification has it. -/
structure World.MeetsSpec (w : World) (desc : Entity → Label → Prog Unit) (P : DescriptionSpec) :
    Prop
    extends w.StatesOwn desc where
  factory : ∀ {deeper drain recipe cx}, (∀ run, deeper = some run → RunnerShows w desc P run) →
    cx.FactsBehind → (w.eval deeper drain (w.catalog recipe).factory cx).Comes (P.yields recipe)
      (P.fails recipe)
  shows : ∀ {deeper drain en l cx}, (∀ run, deeper = some run → RunnerShows w desc P run) →
    cx.FactsBehind → l.number ≤ cx.labels → cx.factsAbout l = [] →
    (w.recover (some (.failure l)) none en.symbol?
      (w.eval deeper drain (desc en l) cx)).outcome.stops = false →
    P.shows en l (w.recover (some (.failure l)) none en.symbol?
      (w.eval deeper drain (desc en l) cx)).context
  /-- An entity whose place cannot be made. -/
  unplaced : ∀ {en l e} {cx : Context}, en.behavior = .pushesScope →
    P.fails (.location en.reportingLocation?) e → e.isFatal = false →
    P.shows en l (cx.send (w.model.failureMessage e none en.symbol?) (some (.failure l)))

namespace Reply

variable {r : Reply α}

theorem Adds.andThen {next : α → Context → Reply β} (hm : ∀ l, mine l → l.number ≤ cx.labels)
    (h : r.Adds desc P mine cx)
    (hn : ∀ a cx₁, r = ⟨.done a, cx₁⟩ → TrapFacts.Adds desc P mine false cx cx₁ →
      (next a cx₁).Adds desc P mine cx₁) : (r.andThen next).Adds desc P mine cx := by
  obtain ⟨o, cx₁⟩ := r
  cases o with
  | done a => exact TrapFacts.Adds.trans hm h (hn a cx₁ rfl h)
  | failed | exhausted => exact h

theorem Comes.mono {good good' : α → Context → Prop} {bad bad' : Failure → Prop}
    (h : r.Comes good bad) (hg : ∀ a cx, good a cx → good' a cx) (hb : ∀ e, bad e → bad' e) :
    r.Comes good' bad' :=
  ⟨fun a ha => hg a _ (h.result a ha), fun e he hn => hb e (h.failure e he hn)⟩

theorem Comes.andThen {next : α → Context → Reply β} {good : α → Context → Prop}
    {good' : β → Context → Prop} {bad : Failure → Prop} (h : r.Comes good bad)
    (hn : ∀ a cx₁, r = ⟨.done a, cx₁⟩ → good a cx₁ → (next a cx₁).Comes good' bad) :
    (r.andThen next).Comes good' bad := by
  obtain ⟨o, cx₁⟩ := r
  cases o with
  | done a => exact hn a cx₁ rfl (h.result a rfl)
  | failed e => exact ⟨by rintro _ ⟨⟩, by rintro _ ⟨⟩ hn; exact h.failure e rfl hn⟩
  | exhausted => exact ⟨by rintro _ ⟨⟩, by rintro _ ⟨⟩⟩

end Reply

namespace World

/-- A report adds no facts. -/
theorem recover_adds {r : Reply Unit} (about : Option Concern) (node : Option NodeId)
    (symbol : Option SymbolId) (hm : ∀ l, mine l → l.number ≤ cx.labels)
    (h : r.Adds desc P mine cx) : (w.recover about node symbol r).Adds desc P mine cx := by
  obtain ⟨o, cx₁⟩ := r
  cases o with
  | done | exhausted => exact h
  | failed e =>
    cases he : e.isFatal with
    | true => simpa [recover, he, Outcome.stops] using h
    | false =>
      simp only [Reply.Adds, Outcome.stops, he] at h
      simp only [recover, he]
      exact h.trans hm (.quiet h.factsBehind (Context.events_send _ _ _) rfl rfl (by simp) rfl)

theorem guarding_adds {key : Key} {action : Context → Reply Unit} (hs : cx.FactsBehind)
    (hm : ∀ l, mine l → l.number ≤ cx.labels)
    (h : ∀ cx', cx' = cx ∨ cx' = cx.openGuard key → cx'.FactsBehind →
      (action cx').Adds desc P mine cx') : (w.guarding key action cx).Adds desc P mine cx := by
  unfold guarding
  split
  · exact h cx (.inl rfl) hs
  · have hopen : TrapFacts.Adds desc P mine false cx (cx.openGuard key) :=
      .quiet hs (cx.events_openGuard key) rfl rfl (by simp) rfl
    have haction := hopen.trans hm (h _ (.inr rfl) hopen.factsBehind)
    let r := action (cx.openGuard key)
    have hclose : TrapFacts.Adds desc P mine r.outcome.stops r.context r.context.closeGuard :=
      .quiet haction.factsBehind (Context.events_closeGuard _) rfl rfl (by simp) rfl
    exact haction.join hm id hclose

end World

/-- A new label has no facts yet. -/
theorem Context.FactsBehind.introduce (hs : cx.FactsBehind) (slot : Slot) (en : Entity) :
    (cx.introduce slot en).2.FactsBehind := by
  intro l hl
  rw [cx.labels_introduce] at hl
  rw [cx.factsAbout_introduce]
  exact hs l (by omega)

theorem Context.created_introduce {slot' : Slot} {c : Created}
    (hc : .created slot' c ∈ (cx.introduce slot en).2.events) :
    .created slot' c ∈ cx.events ∨ c = ⟨cx.nextLabel, en⟩ := by
  rcases mem_events_introduce hc with hc | ⟨_, hc⟩ | hc | hc
  · exact .inl hc
  · cases hc
  · cases hc
  · cases hc
    exact .inr rfl

namespace Adds

/-- A new entity that was described, or that is not described at all. -/
theorem introduce (h : Adds desc P (· = cx.nextLabel) b (cx.introduce slot en).2 cx')
    (hn : cx.same? slot en = none) (hshows : b = false → P.shows en cx.nextLabel cx') :
    Adds desc P mine b cx cx' := by
  have hlabels := h.labels
  rw [cx.labels_introduce] at hlabels
  refine {
    labels := by omega
    events := (Frame.introduce hn).events.trans h.events
    factsBehind := h.factsBehind
    kept := fun l hl _ => ?_
    queue := ?_
    made := fun hb slot' en' l hc => ?_ }
  · have hne : l ≠ cx.nextLabel := by
      rintro rfl
      exact Nat.not_succ_le_self _ hl
    rw [h.kept l (by rw [cx.labels_introduce]; omega) hne, cx.factsAbout_introduce]
  · obtain ⟨more, hq, hj⟩ := h.queue
    rw [cx.queue_introduce] at hq
    refine ⟨more, hq, hj.lower ?_⟩
    rw [cx.labels_introduce]
    omega
  · rcases h.made hb slot' en' l hc with hc | ⟨hlow, hhigh, hsure⟩
    · rcases Context.created_introduce hc with hc | hc
      · exact .inl hc
      · obtain ⟨rfl, rfl⟩ := Created.mk.inj hc
        exact .inr ⟨Nat.lt_succ_self _, hlabels, .inl (hshows hb)⟩
    · rw [cx.labels_introduce] at hlow
      exact .inr ⟨by omega, hhigh, hsure⟩

/-- A new entity that waits to be described. -/
theorem deferred (hs : cx.FactsBehind) (hn : cx.same? slot en = none)
    (h : Adds desc P (fun _ => False) false (cx.introduce slot en).2 cx₁)
    (hq : cx₁.queue = cx.queue) :
    Adds desc P mine b cx (cx₁.enqueue (.population en cx.nextLabel (desc en cx.nextLabel))) := by
  let entry : Pending := ⟨cx₁.deferred, .population en cx.nextLabel (desc en cx.nextLabel)⟩
  have hlabels := h.labels
  rw [cx.labels_introduce] at hlabels
  have hfacts : ∀ l, (cx₁.enqueue entry.work).factsAbout l = cx₁.factsAbout l :=
    Context.factsAbout_quiet (cx₁.events_enqueue _) rfl
  have hqueue : (cx₁.enqueue entry.work).queue = cx.queue ++ [entry] := hq ▸ rfl
  have hnone : (cx₁.enqueue entry.work).factsAbout cx.nextLabel = [] := by
    rw [hfacts, h.kept _ (by simp [Context.nextLabel]) not_false, cx.factsAbout_introduce]
    exact hs _ (Nat.lt_succ_self _)
  refine {
    labels := Nat.le_trans (Nat.le_succ _) hlabels
    events := ((Frame.introduce hn).events.trans h.events).trans (Frame.enqueue _ _).events
    factsBehind := fun l hl => (hfacts l).trans (h.factsBehind l hl)
    kept := fun l hl _ => ?_
    queue := ⟨[entry], hqueue, ?_, by simp [entry, Work.dues]⟩
    made := fun _ slot' en' l hc => ?_ }
  · rw [hfacts, h.kept l (by rw [cx.labels_introduce]; omega) not_false, cx.factsAbout_introduce]
  · intro a ha
    obtain rfl := List.mem_singleton.1 ha
    exact ⟨en, cx.nextLabel, rfl, Nat.lt_succ_self _, hlabels, hnone⟩
  · rw [cx₁.events_enqueue, List.mem_append, List.mem_singleton] at hc
    rcases hc with hc | hc
    · rcases h.made rfl slot' en' l hc with hc | ⟨hlow, hhigh, hsure⟩
      · rcases Context.created_introduce hc with hc | hc
        · exact .inl hc
        · obtain ⟨rfl, rfl⟩ := Created.mk.inj hc
          refine .inr ⟨Nat.lt_succ_self _, hlabels, .inr ⟨?_, hnone⟩⟩
          rw [Context.dues, hqueue, List.flatMap_append]
          exact List.mem_append_right _ (by simp [entry, Work.dues])
      · rw [cx.labels_introduce] at hlow
        exact .inr ⟨by omega, hhigh, hsure.along (Frame.enqueue _ _).events (hfacts l) rfl⟩
    · cases hc

end Adds

namespace World

/-- Without an object, what is settled on is what was made. -/
theorem settle_entity {body : Entity → Label → Prog Unit} {c : Created}
    (h : (w.settle run .value body en cx).outcome = .done c) : c.entity = en := by
  unfold settle at h
  cases hn : cx.same? .value en with
  | some c' =>
    rw [hn] at h
    cases h
    obtain ⟨_, -, hc⟩ := Option.map_eq_some_iff.1 hn
    exact hc ▸ rfl
  | none =>
    rw [hn] at h
    dsimp only at h
    split at h
    · generalize w.schedule run en _ _ _ = r at h
      obtain ⟨o, cx₁⟩ := r
      cases o with
      | done => cases h; rfl
      | failed | exhausted => cases h
    · cases h
      rfl

variable (hw : w.StatesOwn desc)

include hw

/-- A description states facts about its own label alone, its place included. -/
theorem attend_adds (hrun : RunnerShows w desc P run) (hs : cx.FactsBehind)
    (hl : l.number ≤ cx.labels) :
    (w.attend run en l (desc en l) cx).Adds desc P (· = l) cx := by
  have hm : ∀ l', l' = l → l'.number ≤ cx.labels := by
    rintro _ rfl
    exact hl
  have hdescribe : ∀ cx', cx'.FactsBehind → l.number ≤ cx'.labels →
      (w.describe run en l (desc en l) cx').Adds desc P (· = l) cx' := by
    intro cx' hs' hl'
    have hm' : ∀ l', l' = l → l'.number ≤ cx'.labels := by
      rintro _ rfl
      exact hl'
    have hbegin : Adds desc P (· = l) false cx' (cx'.populating en l) :=
      .quiet hs' (cx'.events_populating en l) rfl rfl (by simp) rfl
    refine recover_adds _ _ _ hm' (hbegin.trans hm' ?_)
    exact hrun.adds (hw.own en l) hbegin.factsBehind hm'
  refine recover_adds _ _ _ hm ?_
  unfold populate
  split
  · have hplace : (run Created (.entity (.location en.reportingLocation?)) cx).Adds desc P
        (fun _ => False) cx := hrun.adds (fun _ => trivial) hs (by simp)
    refine Reply.Adds.andThen hm (hplace.mono (by simp)) fun place cx₁ _ hmore => ?_
    have hl₁ := Nat.le_trans hl hmore.labels
    refine guarding_adds hmore.factsBehind (fun l' hl' => Nat.le_trans (hm l' hl') hmore.labels) ?_
    rintro cx₂ (rfl | rfl) hs₂
    · exact hdescribe _ hs₂ hl₁
    · exact hdescribe _ hs₂ hl₁
  · exact hdescribe cx hs hl

/-- A new entity is described at once, or its description is queued. -/
theorem schedule_adds (hrun : RunnerShows w desc P run) (hs : cx.FactsBehind)
    (hn : cx.same? slot en = none) :
    (w.schedule run en cx.nextLabel (desc en cx.nextLabel) (cx.introduce slot en).2).Adds desc P
      (fun _ => False) cx := by
  let plan := en.behavior.plan (!(cx.introduce slot en).2.guards.isEmpty)
  let cx₁ := w.complain plan en cx.nextLabel (cx.introduce slot en).2
  have hs₁ := hs.introduce slot en
  have hcomplain : ∀ mine, Adds desc P mine false (cx.introduce slot en).2 cx₁ ∧
      cx₁.queue = cx.queue := by
    intro mine
    simp only [cx₁, complain]
    split
    · refine ⟨.quiet hs₁ (Context.events_send _ _ _) rfl rfl (by simp) rfl, ?_⟩
      exact cx.queue_introduce slot en
    · exact ⟨.refl hs₁, cx.queue_introduce slot en⟩
  have hreply : w.schedule run en cx.nextLabel (desc en cx.nextLabel) (cx.introduce slot en).2 =
      if plan.deferred then
        ⟨.done (), cx₁.enqueue (.population en cx.nextLabel (desc en cx.nextLabel))⟩
      else w.attend run en cx.nextLabel (desc en cx.nextLabel) cx₁ := rfl
  rw [hreply]
  split
  · obtain ⟨hmore, hq⟩ := hcomplain fun _ => False
    exact .deferred hs hn hmore hq
  · obtain ⟨hmore, -⟩ := hcomplain (· = cx.nextLabel)
    have hl : cx.nextLabel.number ≤ (cx.introduce slot en).2.labels := by simp [Context.nextLabel]
    have hl₁ := Nat.le_trans hl hmore.labels
    have hfacts : cx₁.factsAbout cx.nextLabel = [] := by
      rw [((hcomplain fun _ => False).1).kept _ hl not_false, cx.factsAbout_introduce]
      exact hs _ (Nat.lt_succ_self _)
    refine Adds.introduce (hmore.trans ?_ (attend_adds hw hrun hmore.factsBehind hl₁)) hn
      (hrun.shows hmore.factsBehind hl₁ hfacts)
    rintro _ rfl
    exact hl

/-- A new entity is described, or its description waits. -/
theorem settle_adds (hrun : RunnerShows w desc P run) (hs : cx.FactsBehind) :
    (w.settle run slot desc en cx).Adds desc P (fun _ => False) cx := by
  unfold settle
  cases hn : cx.same? slot en with
  | some c => exact .refl hs
  | none =>
    dsimp only
    split
    · have hschedule := schedule_adds hw hrun hs hn
      exact hschedule.andThen (by simp) fun _ cx₁ _ hmore => .refl hmore.factsBehind
    · next hp =>
      refine Adds.introduce (.refl (hs.introduce slot en)) hn fun _ => ?_
      exact P.idle (by simpa using hp)

theorem build_adds {recipe : Recipe} (hrun : RunnerShows w desc P run) (hs : cx.FactsBehind) :
    (w.build run slot (w.catalog recipe).factory desc cx).Adds desc P (fun _ => False) cx := by
  have henter : Adds desc P (fun _ => False) false cx (cx.enter slot) :=
    .quiet hs (cx.events_enter slot) rfl rfl (by simp) rfl
  have hmade : ((run Entity (w.catalog recipe).factory (cx.enter slot)).andThen
      (w.settle run slot desc)).Adds desc P (fun _ => False) (cx.enter slot) := by
    have hfactory : (run Entity (w.catalog recipe).factory (cx.enter slot)).Adds desc P
        (fun _ => False) (cx.enter slot) :=
      hrun.adds (hw.factless recipe) henter.factsBehind (by simp)
    exact hfactory.andThen (by simp) fun en cx₁ _ hmore => settle_adds hw hrun hmore.factsBehind
  have hall := henter.trans (by simp) hmade
  exact hall.join (by simp) id (.still hall.factsBehind (Context.events_leave _) rfl rfl)

/-- Without an object, what is made is what the factory made. -/
theorem build_comes {recipe : Recipe} (hrun : RunnerShows w desc P run) (hs : cx.FactsBehind) :
    (w.build run (w.catalog recipe).slot (w.catalog recipe).factory desc cx).Comes
      (fun c cx' => (w.catalog recipe).slot = .value → P.yields recipe c.entity cx')
      (P.fails recipe) := by
  have henter : (cx.enter (w.catalog recipe).slot).FactsBehind := by
    intro l hl
    rw [Context.factsAbout_quiet (cx.events_enter _) rfl]
    exact hs l hl
  have hmade : ((run Entity (w.catalog recipe).factory (cx.enter (w.catalog recipe).slot)).andThen
      (w.settle run (w.catalog recipe).slot desc)).Comes
      (fun c cx' => (w.catalog recipe).slot = .value → P.yields recipe c.entity cx')
      (P.fails recipe) := by
    have hfactory := hrun.adds (hw.factless recipe) henter (by simp)
    refine (hrun.factory henter).andThen fun en cx₁ heq hy => ⟨fun c hc hv => ?_, ?_⟩
    · rw [heq] at hfactory
      have hmore : (w.settle run (w.catalog recipe).slot desc en cx₁).Adds desc P
          (fun _ => False) cx₁ := settle_adds hw hrun hfactory.factsBehind
      rw [hv] at hc
      rw [settle_entity hc]
      exact P.yielded hy hmore.events
    · intro e he hn
      exact absurd (settle_contained e he) (by simp [hn])
  refine ⟨fun c hc hv => P.yielded (hmade.result c hc hv) ?_, hmade.failure⟩
  simp only [build, Context.events_leave, List.prefix_rfl]

variable {deeper : Option Runner} (hdeeper : ∀ run, deeper = some run → RunnerShows w desc P run)

include hdeeper

theorem obtain?_adds {recipe : Recipe} (hs : cx.FactsBehind) :
    (w.obtain? deeper (w.catalog recipe).slot (w.catalog recipe).factory (w.catalog recipe).body
      cx).Adds desc P (fun _ => False) cx := by
  rw [hw.body recipe]
  unfold obtain?
  cases hk : cx.known? (w.catalog recipe).slot with
  | some c => exact .quiet hs (cx.events_log _) rfl rfl (by simp) rfl
  | none =>
    cases deeper with
    | none => exact .quiet hs (cx.events_log _) rfl rfl (by simp) rfl
    | some run =>
      have hbuild : (w.build run (w.catalog recipe).slot (w.catalog recipe).factory desc cx).Adds
          desc P (fun _ => False) cx := build_adds hw (hdeeper run rfl) hs
      refine hbuild.andThen (by simp) fun c cx₁ _ hmore => ?_
      exact .quiet hmore.factsBehind (cx₁.events_log _) rfl rfl (by simp) rfl

/-- A creation returns what its factory yields, or fails as the factory does. -/
theorem obtain?_comes {recipe : Recipe} (hs : cx.FactsBehind) :
    (w.obtain? deeper (w.catalog recipe).slot (w.catalog recipe).factory (w.catalog recipe).body
      cx).Comes (P.Returns w recipe) (P.fails recipe) := by
  rw [hw.body recipe]
  unfold obtain?
  cases hk : cx.known? (w.catalog recipe).slot with
  | some c =>
    refine ⟨?_, by rintro _ ⟨⟩⟩
    rintro _ ⟨⟩
    refine ⟨by simp, fun hv => ?_⟩
    rw [hv] at hk
    cases hk
  | none =>
    cases deeper with
    | none => exact ⟨by rintro _ ⟨⟩, by rintro _ ⟨⟩ he; cases he⟩
    | some run =>
      refine (build_comes hw (hdeeper run rfl) hs).andThen fun c cx₁ _ hy => ⟨?_, by rintro _ ⟨⟩⟩
      rintro _ ⟨⟩
      exact ⟨by simp, fun hv => P.yielded (hy hv) (Frame.log _ _).events⟩

/-- By a program that states facts about given labels alone, no more is added. -/
theorem eval_adds {drain : Context → Reply Unit} {p : Prog α} (hp : p.StatesOnly mine)
    (hs : cx.FactsBehind) (hm : ∀ l, mine l → l.number ≤ cx.labels) :
    (w.eval deeper drain p cx).Adds desc P mine cx := by
  induction p generalizing cx mine with
  | pure | fail => exact .refl hs
  | fresh k ih =>
    have hquiet : Adds desc P (fun _ => False) false cx
        (cx.allocate.write (.fresh cx.nextLabel)) :=
      .event hs (by simp) (cx.allocate.events_write _) (Nat.le_succ _) rfl (by simp) (by
        rintro _ ⟨⟩)
    refine Adds.fresh (ih cx.nextLabel (hp cx.nextLabel) hquiet.factsBehind ?_)
    rintro l (rfl | hl)
    · exact Nat.le_refl _
    · exact Nat.le_succ_of_le (hm l hl)
  | emit t k ih =>
    have hfact : Adds desc P mine false cx (cx.write (.tuple t)) := by
      refine .event hs hm (cx.events_write _) (Nat.le_refl _) rfl (by simp) ?_
      rintro _ ⟨⟩ l hl
      exact hp.1 l hl
    exact hfact.trans hm (ih hp.2 hfact.factsBehind hm)
  | modelError symbol text k ih =>
    unfold eval
    split
    · exact ih hp hs hm
    · exact .refl hs
  | missingType name k ih =>
    have hquiet : Adds desc P mine false cx (cx.missingType name) :=
      .quiet hs (cx.events_missingType name) rfl rfl (by simp) rfl
    exact hquiet.trans hm (ih hp hquiet.factsBehind hm)
  | setAssemblyFile name file k ih =>
    have hstill : Adds desc P mine false cx (cx.setAssemblyFile name file) :=
      .still hs (cx.events_setAssemblyFile name file) rfl rfl
    exact hstill.trans hm (ih hp hstill.factsBehind hm)
  | assemblyFile name k ih => exact ih _ (hp _) hs hm
  | openGenerics label k ih =>
    have hstill : Adds desc P mine false cx (cx.openGenerics label) :=
      .still hs (cx.events_openGenerics label) rfl rfl
    exact hstill.trans hm (ih _ (hp _) hstill.factsBehind hm)
  | snapshot k ih => exact ih _ (hp _) hs hm
  | note remark k ih =>
    have hquiet : Adds desc P mine false cx (cx.log (.noted remark)) :=
      .quiet hs (cx.events_log _) rfl rfl (by simp) rfl
    exact hquiet.trans hm (ih hp hquiet.factsBehind hm)
  | attempt node symbol body k ihb ihk =>
    have hbody := recover_adds (w := w) none node symbol hm (ihb hp.1 hs hm)
    refine hbody.andThen hm fun _ cx₁ _ hmore => ihk hp.2 hmore.factsBehind fun l hl => ?_
    exact Nat.le_trans (hm l hl) hmore.labels
  | summon recipe k ih =>
    have hmade : (w.obtain? deeper (w.catalog recipe).slot (w.catalog recipe).factory
        (w.catalog recipe).body cx).Adds desc P mine cx :=
      (obtain?_adds hw hdeeper hs).mono (by simp)
    refine Reply.Adds.andThen hm hmade fun c cx₁ _ hmore =>
      ih c (hp c) hmore.factsBehind fun l hl => ?_
    exact Nat.le_trans (hm l hl) hmore.labels
  | define | send | guarded | «catch» | later | drain | create => exact hp.elim

theorem eval_comes {drain : Context → Reply Unit} {recipe : Recipe} (hs : cx.FactsBehind) :
    (w.eval deeper drain (.entity recipe) cx).Comes (P.Returns w recipe) (P.fails recipe) := by
  refine (obtain?_comes hw hdeeper hs).andThen fun c cx₁ _ hc => ⟨?_, by rintro _ ⟨⟩⟩
  rintro _ ⟨⟩
  exact hc

omit hw hdeeper

section

variable {drain : Context → Reply Unit}

/-- A description that is over shows its entity. -/
theorem describe_shows (hw : w.MeetsSpec desc P)
    (hdeeper : ∀ run, deeper = some run → RunnerShows w desc P run) (hs : cx.FactsBehind)
    (hl : l.number ≤ cx.labels) (hfacts : cx.factsAbout l = [])
    (hstops : (w.describe (fun _ p cx => w.eval deeper drain p cx) en l (desc en l)
      cx).outcome.stops = false) :
    P.shows en l
      (w.describe (fun _ p cx => w.eval deeper drain p cx) en l (desc en l) cx).context := by
  have hbegin : Adds desc P (fun _ => False) false cx (cx.populating en l) :=
    .quiet hs (cx.events_populating en l) rfl rfl (by simp) rfl
  exact hw.shows hdeeper hbegin.factsBehind hl ((hbegin.kept l hl not_false).trans hfacts) hstops

theorem guarding_shows (hw : w.MeetsSpec desc P)
    (hdeeper : ∀ run, deeper = some run → RunnerShows w desc P run) (key : Key)
    (hs : cx.FactsBehind) (hl : l.number ≤ cx.labels) (hfacts : cx.factsAbout l = [])
    (hstops : (w.guarding key (w.describe (fun _ p cx => w.eval deeper drain p cx) en l (desc en l))
      cx).outcome.stops = false) :
    P.shows en l (w.guarding key
      (w.describe (fun _ p cx => w.eval deeper drain p cx) en l (desc en l)) cx).context := by
  unfold guarding at hstops ⊢
  split at hstops
  · next ha =>
    rw [if_pos ha]
    exact describe_shows hw hdeeper hs hl hfacts hstops
  · next ha =>
    rw [if_neg ha]
    have hopen : Adds desc P (fun _ => False) false cx (cx.openGuard key) :=
      .quiet hs (cx.events_openGuard _) rfl rfl (by simp) rfl
    have hshown := describe_shows hw hdeeper hopen.factsBehind hl
      ((hopen.kept l hl not_false).trans hfacts) hstops
    refine P.lasting hshown ⟨_, (Context.events_closeGuard _).symm⟩ ?_
    exact Context.factsAbout_quiet (Context.events_closeGuard _) rfl l

/-- What is attended to is shown. Without a place its description is over before it began. -/
theorem attend_shows (hw : w.MeetsSpec desc P)
    (hdeeper : ∀ run, deeper = some run → RunnerShows w desc P run) (hs : cx.FactsBehind)
    (hl : l.number ≤ cx.labels) (hfacts : cx.factsAbout l = [])
    (hstops : (w.attend (fun _ p cx => w.eval deeper drain p cx) en l (desc en l)
      cx).outcome.stops = false) :
    P.shows en l
      (w.attend (fun _ p cx => w.eval deeper drain p cx) en l (desc en l) cx).context := by
  let run : Runner := fun _ p cx => w.eval deeper drain p cx
  change (w.attend run en l (desc en l) cx).outcome.stops = false at hstops
  change P.shows en l (w.attend run en l (desc en l) cx).context
  unfold attend populate at hstops ⊢
  split at hstops
  · next hg =>
    rw [if_pos hg]
    have hb := plan_duplicationGuard.1 hg
    have hplace : (run Created (.entity (.location en.reportingLocation?)) cx).Adds desc P
        (fun _ => False) cx := eval_adds hw.toStatesOwn hdeeper (fun _ => trivial) hs (by simp)
    have hcomes : (run Created (.entity (.location en.reportingLocation?)) cx).Comes
        (P.Returns w _) (P.fails _) := eval_comes hw.toStatesOwn hdeeper hs
    generalize run Created (.entity (.location en.reportingLocation?)) cx = r
      at hplace hcomes hstops
    obtain ⟨o, cx₁⟩ := r
    cases o with
    | exhausted => cases hstops
    | failed e =>
      cases he : e.isFatal with
      | true => simp [Reply.andThen, recover, he, Outcome.stops] at hstops
      | false =>
        simp only [Reply.andThen, recover, he]
        exact hw.unplaced hb (hcomes.failure e rfl he) he
    | done place =>
      have hcontained : (w.guarding (.label l (.ofLabel place.label))
          (w.describe run en l (desc en l)) cx₁).Contained :=
        guarding_contained fun _ => describe_contained
      simp only [Reply.andThen] at hstops ⊢
      rw [recover_of_contained _ _ _ hcontained] at hstops ⊢
      exact guarding_shows hw hdeeper _ hplace.factsBehind (Nat.le_trans hl hplace.labels)
        ((hplace.kept l hl not_false).trans hfacts) hstops
  · next hg =>
    rw [if_neg hg]
    rw [recover_of_contained _ _ _ describe_contained] at hstops ⊢
    exact describe_shows hw hdeeper hs hl hfacts hstops

end

/-- What runs programs with more room shows entities if what runs them with less room does. -/
theorem eval_runnerShows (hw : w.MeetsSpec desc P)
    (hdeeper : ∀ run, deeper = some run → RunnerShows w desc P run) (drain : Context → Reply Unit) :
    RunnerShows w desc P fun _ p cx => w.eval deeper drain p cx where
  adds hp hs hm := eval_adds hw.toStatesOwn hdeeper hp hs hm
  factory hs := hw.factory hdeeper hs
  shows hs hl hfacts := attend_shows hw hdeeper hs hl hfacts

/-- At every depth, who is described shows what the specification says. -/
theorem runWithin_runnerShows (hw : w.MeetsSpec desc P) (drain : Nat → Context → Reply Unit)
    (room : Nat) :
    RunnerShows w desc P fun α p cx => w.runWithin drain room α p cx := by
  induction room with
  | zero => exact eval_runnerShows hw (by simp) (drain 0)
  | succ room ih =>
    refine eval_runnerShows hw ?_ (drain (room + 1))
    rintro run ⟨⟩
    exact ih

end World

end TrapFacts
