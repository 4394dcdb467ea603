import TrapFacts.Proofs.Engine.Permissions
import TrapFacts.Proofs.Engine.Near
import TrapFacts.Proofs.Engine.ContextInvariant

/-! A program that only makes entities adds nothing when it runs again, in the context that is left
when all is done. -/

namespace TrapFacts

variable {α β : Type} {w : World} {desc : Entity → Label → Prog Unit} {U : ContextInvariant}
  {may : Recipe → Prop} {F cx d : Context} {e : Event} {en : Entity} {slot : Slot}
  {run run' : Runner} {deeper deeper' : Option Runner} {drain drain' : Context → Reply Unit}

namespace World

variable (hmay : ∀ recipe, may recipe →
  (w.catalog recipe).factory.Keeps may (fun _ => False) fun _ => True)

/-- A program that follows recipes which do not fail does not fail, unless that is fatal. -/
theorem eval_contained {p : Prog α} {good : α → Prop}
    (hobtain : ∀ recipe, may recipe → ∀ cx,
      let c := w.catalog recipe
      (w.obtain? deeper c.slot c.factory c.body cx).Contained)
    (hp : p.Keeps may (fun _ => False) good) (cx : Context) :
    (w.eval deeper drain p cx).Contained := by
  induction p generalizing cx with
  | pure => rintro _ ⟨⟩
  | fail => exact hp.elim
  | fresh _ ih | define _ _ ih | assemblyFile _ _ ih | openGenerics _ _ ih | snapshot _ ih =>
    exact ih _ (hp _) _
  | emit _ _ ih | missingType _ _ ih | setAssemblyFile _ _ _ ih | note _ _ ih => exact ih hp _
  | modelError => exact hp.1.elim
  | attempt node symbol body k _ ih =>
    exact (recover_contained none node symbol _).andThen fun _ cx => ih hp.2 cx
  | summon recipe k ih =>
    exact (hobtain recipe hp.1 cx).andThen fun c cx => ih c (hp.2 c) cx
  | send | guarded | «catch» | later | drain | create => exact hp.elim

include hmay

theorem runWithin_contained (drain : Nat → Context → Reply Unit) (room : Nat) {p : Prog α}
    {good : α → Prop} (hp : p.Keeps may (fun _ => False) good) (cx : Context) :
    (w.runWithin drain room α p cx).Contained := by
  induction room generalizing α cx with
  | zero =>
    refine eval_contained (fun recipe _ cx e he => ?_) hp cx
    by_contra hn
    obtain ⟨run, hrun, -⟩ := obtain?_factory he (by simpa using hn)
    cases hrun
  | succ room ih =>
    refine eval_contained (fun recipe hr cx e he => ?_) hp cx
    by_contra hn
    obtain ⟨run, hrun, hf⟩ := obtain?_factory he (by simpa using hn)
    cases hrun
    exact hn (ih (hmay recipe hr) _ e hf)

end World

/-- Nothing differs but the diagnostics and the level. -/
def Context.Same (F : Context) (depth : Nat) (cx : Context) : Prop :=
  ({ F with depth } : Context).DiagnosedOnly cx

namespace Context.Same

theorem diagnosedOnly {depth : Nat} (h : F.Same depth cx) (hs : cx.DiagnosedOnly d) :
    F.Same depth d :=
  ⟨hs.muted.trans h.muted, hs.queue.trans h.queue, hs.config.trans h.config,
    hs.files.trans h.files, hs.trap.trans h.trap⟩

theorem of_diagnosedOnly (h : F.DiagnosedOnly cx) : F.Same F.depth cx :=
  h

theorem log {depth : Nat} (h : F.Same depth cx) (he : e.record? = none) :
    F.Same depth (cx.log e) :=
  h.diagnosedOnly ⟨rfl, rfl, rfl, rfl, by rw [trap_event (cx.events_log e), he]; simp⟩

theorem enter {depth : Nat} (h : F.Same depth cx) (slot : Slot) :
    F.Same (depth + 1) (cx.enter slot) where
  muted := congrArg (fun cx : Context => { cx with depth := cx.depth + 1 }) h.muted
  queue := h.queue
  config := h.config
  files := h.files
  trap := by
    rw [trap_event (cx.events_enter slot), h.trap]
    exact List.append_nil _

theorem leave {depth : Nat} (h : F.Same (depth + 1) cx) : F.Same depth cx.leave :=
  ⟨congrArg (fun cx : Context => { cx with depth := cx.depth - 1 }) h.muted, h.queue, h.config,
    h.files, h.trap⟩

theorem same? {depth : Nat} (h : F.Same depth cx) : cx.same? = F.same? := by
  funext slot en
  have hsame : ∀ cx : Context, cx.muted.same? slot en = cx.same? slot en := by
    intro cx
    cases slot <;> rfl
  rw [← hsame cx, h.muted, hsame]
  cases slot <;> rfl

theorem known? {depth : Nat} (h : F.Same depth cx) (slot : Slot) :
    cx.known? slot = F.known? slot := by
  cases slot with
  | value => rfl
  | object type source => exact congrFun (congrFun h.same? (.object type source)) (.file "")

end Context.Same

/-- What was served is known in the end, and what is known does not fail to be made. -/
structure World.Complete (w : World) (F : Context) : Prop where
  served : ∀ slot c, .served slot c ∈ F.events → F.same? slot c.entity = some c
  sure : ∀ recipe c, F.known? (w.catalog recipe).slot = some c → ∀ drain room cx,
    (w.runWithin drain room Entity (w.catalog recipe).factory cx).Contained

/-- A run that was done on the way to the end, and one in the end: it comes to the same, and adds
nothing. -/
def Reply.Repeats (F : Context) (depth : Nat) (r r' : Reply α) : Prop :=
  r.outcome.stops = false → r.context.events <+: F.events →
    r'.outcome = r.outcome ∧ F.Same depth r'.context

theorem Reply.Repeats.andThen {depth : Nat} {r r' : Reply α} {next next' : α → Context → Reply β}
    (h : r.Repeats F depth r')
    (hgrows : ∀ a cx, r = ⟨.done a, cx⟩ → cx.events <+: (next a cx).context.events)
    (hn : ∀ a cx d, r = ⟨.done a, cx⟩ → F.Same depth d →
      (next a cx).Repeats F depth (next' a d)) :
    (r.andThen next).Repeats F depth (r'.andThen next') := by
  intro hstop hevents
  obtain ⟨o, cx⟩ := r
  obtain ⟨o', d⟩ := r'
  cases o with
  | done a =>
    obtain ⟨rfl, hd⟩ := h rfl ((hgrows a cx rfl).trans hevents)
    exact hn a cx d rfl hd hstop hevents
  | failed | exhausted =>
    obtain ⟨rfl, hd⟩ := h hstop hevents
    exact ⟨rfl, hd⟩

theorem World.recover_repeats {depth : Nat} {r r' : Reply Unit} (about : Option Concern)
    (node : Option NodeId) (symbol : Option SymbolId) (h : r.Repeats F depth r') :
    (w.recover about node symbol r).Repeats F depth (w.recover about node symbol r') := by
  obtain ⟨o, cx⟩ := r
  obtain ⟨o', d⟩ := r'
  cases o with
  | done | exhausted =>
    intro hstop hevents
    obtain ⟨rfl, hd⟩ := h hstop hevents
    exact ⟨rfl, hd⟩
  | failed e =>
    cases he : e.isFatal with
    | true =>
      intro hstop
      simp [recover, he, Outcome.stops] at hstop
    | false =>
      intro _ hevents
      have hsent : cx.events <+: (w.recover about node symbol ⟨.failed e, cx⟩).context.events := by
        simp [recover, he]
      obtain ⟨rfl, hd⟩ := h he (hsent.trans hevents)
      simp only [recover, he]
      exact ⟨rfl, hd.diagnosedOnly (.send d _ _)⟩

namespace ContextInvariant

/-- A way to run programs, and one that repeats what was run. -/
structure Repeaters (U : ContextInvariant) (w : World) (desc : Entity → Label → Prog Unit)
    (F : Context)
    (run run' : Runner) : Prop where
  runnerKeeps : U.RunnerKeeps w desc run
  sure : ∀ recipe c, F.known? (w.catalog recipe).slot = some c → ∀ cx,
    (run Entity (w.catalog recipe).factory cx).Contained
  repeats : ∀ {α : Type} {p : Prog α} {depth : Nat} {cx d : Context}, p.Gathers →
    U.Stands desc cx → F.Same depth d → (run α p cx).Repeats F depth (run' α p d)

/-- What was settled on then is found now, by its key if it stands for no object. -/
theorem settle_repeats {body : Entity → Label → Prog Unit} {depth : Nat} (hd : F.Same depth d)
    (hsame : ∀ made, (w.settle run slot body en cx).outcome = .done made →
      F.same? slot made.entity = some made) :
    (w.settle run slot body en cx).Repeats F depth (w.settle run' slot body en d) := by
  intro hstop _
  cases ho : (w.settle run slot body en cx).outcome with
  | exhausted => simp [ho, Outcome.stops] at hstop
  | failed e =>
    rw [ho] at hstop
    exact absurd (World.settle_contained e ho) (by simpa [Outcome.stops] using hstop)
  | done made =>
    have hfound : d.same? slot en = some made := by
      rw [hd.same?]
      cases slot with
      | value => exact World.settle_entity ho ▸ hsame made ho
      | object => exact hsame made ho
    unfold World.settle
    rw [hfound]
    exact ⟨rfl, hd⟩

variable (hu : U.EngineKeeps w desc)

include hu

/-- A creation of the second run repeats that of the first. -/
theorem build_repeats (hrun : U.Repeaters w desc F run run') (recipe : Recipe) {depth : Nat}
    (h : U.Stands desc cx) (hd : F.Same depth d) :
    let c := w.catalog recipe
    let r := w.build run c.slot c.factory desc cx
    (∀ made, r.outcome = .done made → F.same? c.slot made.entity = some made) →
      r.Repeats F depth (w.build run' c.slot c.factory desc d) := by
  intro c r hsame hstop hevents
  have henter : U.Stands desc (cx.enter c.slot) :=
    hu.stands h (.event (e := .making _) trivial (cx.events_enter _) rfl rfl rfl rfl rfl) rfl
  have hmade := hrun.repeats (hu.gathers recipe) henter (hd.enter c.slot)
  have hstands := hrun.runnerKeeps.acts (hu.gathers recipe) permits_none henter
  have hyields : ∀ en, (run Entity c.factory (cx.enter c.slot)).outcome = .done en →
      U.yields recipe en (run Entity c.factory (cx.enter c.slot)).context :=
    fun _ => hrun.runnerKeeps.factory henter
  have hsettled : ((run Entity c.factory (cx.enter c.slot)).andThen
      (w.settle run c.slot desc)).Repeats F (depth + 1)
        ((run' Entity c.factory (d.enter c.slot)).andThen (w.settle run' c.slot desc)) := by
    refine hmade.andThen (fun en cx₁ hr => ?_) fun en cx₁ d₁ hr hd₁ => settle_repeats hd₁ ?_
    · rw [hr] at hstands hyields
      exact (settle_kept hu hrun.runnerKeeps hstands.stands (hyields en rfl)).1.frame.events
    · intro made hm
      refine hsame made ?_
      change (Reply.andThen _ _).outcome = _
      rw [hr]
      exact hm
  obtain ⟨ho, hleft⟩ := hsettled hstop hevents
  exact ⟨ho, hleft.leave⟩

variable (hdeeper : Option.Rel (U.Repeaters w desc F) deeper deeper')

include hdeeper

omit hu in
theorem deeperKeeps : ∀ run, deeper = some run → U.RunnerKeeps w desc run := by
  rintro run rfl
  cases hdeeper with
  | some hrun => exact hrun.runnerKeeps

section

variable {recipe : Recipe} {depth : Nat} (hd : F.Same depth d)
  (hsame : ∀ made, (w.obtain? deeper (w.catalog recipe).slot (w.catalog recipe).factory
    (w.catalog recipe).body cx).outcome = .done made →
      F.same? (w.catalog recipe).slot made.entity = some made)

include hd hsame

omit hu in
/-- What is known in the end is found. It was found or made then. -/
theorem obtain?_repeats_known {known : Created}
    (hk : F.known? (w.catalog recipe).slot = some known) :
    let c := w.catalog recipe
    (w.obtain? deeper c.slot c.factory c.body cx).Repeats F depth
      (w.obtain? deeper' c.slot c.factory c.body d) := by
  intro c hstop _
  have hagain : w.obtain? deeper' c.slot c.factory c.body d =
      ⟨.done known, d.log (.served c.slot known)⟩ := by
    unfold World.obtain?
    rw [hd.known?, hk]
  rw [hagain]
  refine ⟨?_, hd.log rfl⟩
  cases ho : (w.obtain? deeper c.slot c.factory c.body cx).outcome with
  | done made =>
    have hknown := (Context.same?_of_known hk made.entity).symm.trans (hsame made ho)
    cases hknown
    rfl
  | exhausted => simp [ho, Outcome.stops] at hstop
  | failed e =>
    -- It would have failed to be made, which what is known in the end does not.
    have he : e.isFatal = false := by simpa [ho, Outcome.stops] using hstop
    obtain ⟨run, rfl, hf⟩ := World.obtain?_factory ho he
    cases hdeeper with
    | some hrun =>
      have hfatal := hrun.sure recipe known hk _ e hf
      simp [he] at hfatal

/-- What is not known in the end is made anew, as it was then, or fails as it did. -/
theorem obtain?_repeats_unknown (h : U.Stands desc cx)
    (hk : F.known? (w.catalog recipe).slot = none) :
    let c := w.catalog recipe
    (w.obtain? deeper c.slot c.factory c.body cx).Repeats F depth
      (w.obtain? deeper' c.slot c.factory c.body d) := by
  intro c hstop hevents
  have hnone : cx.known? c.slot = none := by
    cases hc : cx.known? c.slot with
    | none => rfl
    | some made =>
      have hmade := hsame made (by simp only [World.obtain?, c, hc])
      change cx.known? (w.catalog recipe).slot = some made at hc
      generalize (w.catalog recipe).slot = slot at hk hc hmade
      cases slot with
      | value => cases hc
      | object => cases hk.symm.trans hmade
  cases hdeeper with
  | none => simp [World.obtain?, hnone, Outcome.stops, Failure.isFatal] at hstop
  | @some run run' hrun =>
    have hbegin : ∀ run cx, cx.known? c.slot = none →
        w.obtain? (some run) c.slot c.factory c.body cx =
          (w.build run c.slot c.factory desc cx).andThen fun made cx =>
            ⟨.done made, cx.log (.served c.slot made)⟩ := by
      intro run cx hnone
      simp only [World.obtain?, hnone, c, hu.described recipe]
    change ∀ made, (w.obtain? _ c.slot c.factory c.body cx).outcome = _ → _ at hsame
    rw [hbegin run cx hnone] at hstop hevents hsame
    rw [hbegin run cx hnone, hbegin run' d ((hd.known? c.slot).trans hk)]
    have hbuilt := build_repeats hu hrun recipe h hd fun made hmade => hsame made (by
      generalize w.build run _ _ desc cx = r at hmade
      obtain ⟨_, _⟩ := r
      cases hmade
      rfl)
    refine hbuilt.andThen ?_ ?_ hstop hevents
    · rintro made cx₁ -
      exact (Frame.log cx₁ _).events
    · rintro made cx₁ d₁ - hd₁ - -
      exact ⟨rfl, hd₁.log rfl⟩

end

variable (hF : w.Complete F)

include hF

/-- A cache that the first run filled serves the second as well. -/
theorem obtain?_repeats (recipe : Recipe) {depth : Nat} (h : U.Stands desc cx)
    (hd : F.Same depth d) :
    let c := w.catalog recipe
    (w.obtain? deeper c.slot c.factory c.body cx).Repeats F depth
      (w.obtain? deeper' c.slot c.factory c.body d) := by
  intro c hstop hevents
  have hreturns := (obtain?_kept hu (deeperKeeps hdeeper) recipe h).2
  have hsame : ∀ made, (w.obtain? deeper c.slot c.factory c.body cx).outcome = .done made →
      F.same? c.slot made.entity = some made := fun made hmade =>
    hF.served _ _ (hevents.subset (hreturns made hmade).served)
  cases hk : F.known? c.slot with
  | some => exact obtain?_repeats_known hdeeper hd hsame hk hstop hevents
  | none => exact obtain?_repeats_unknown hu hdeeper hd hsame h hk hstop hevents

variable (hfiles : ∀ cx, U.holds cx → cx.extractor.assemblyFile? = F.extractor.assemblyFile? ∧
  cx.extractor.config.standalone = F.extractor.config.standalone)

include hfiles

/-- A program that gathers does the same again. -/
theorem eval_repeats {p : Prog α} {depth : Nat} (hp : p.Gathers) (h : U.Stands desc cx)
    (hd : F.Same depth d) :
    (w.eval deeper drain p cx).Repeats F depth (w.eval deeper' drain' p d) := by
  have hdeeperKeeps := deeperKeeps hdeeper
  induction p generalizing cx d with
  | pure | fail => exact fun _ _ => ⟨rfl, hd⟩
  | modelError symbol text k ih =>
    have hstandalone : d.extractor.config.standalone = cx.extractor.config.standalone := by
      rw [(hfiles cx h.holds).2, hd.config]
    unfold World.eval
    rw [hstandalone]
    split
    · exact ih hp h hd
    · exact fun _ _ => ⟨rfl, hd⟩
  | assemblyFile name k ih =>
    have hfile : d.extractor.assemblyFile? = cx.extractor.assemblyFile? := by
      rw [(hfiles cx h.holds).1, hd.files]
    unfold World.eval
    rw [hfile]
    exact ih _ (hp _) h hd
  | attempt node symbol body k ihb ihk =>
    have hbody : U.Kept desc cx
        (w.recover none node symbol (w.eval deeper drain body cx)).context :=
      recover_kept hu none node symbol (eval_acts hu hdeeperKeeps hp.1 permits_none h)
    refine (World.recover_repeats none node symbol (ihb hp.1 h hd)).andThen ?_ ?_
    · intro _ cx₁ hr
      rw [hr] at hbody
      exact (eval_acts hu hdeeperKeeps hp.2 permits_none hbody.stands).frame.events
    · intro _ cx₁ d₁ hr hd₁
      rw [hr] at hbody
      exact ihk hp.2 hbody.stands hd₁
  | summon recipe k ih =>
    have hmade := (obtain?_kept hu hdeeperKeeps recipe h).1
    refine (obtain?_repeats hu hdeeper hF recipe h hd).andThen ?_ ?_
    · intro c cx₁ hr
      rw [hr] at hmade
      exact (eval_acts hu hdeeperKeeps (hp c) permits_none hmade.stands).frame.events
    · intro c cx₁ d₁ hr hd₁
      rw [hr] at hmade
      exact ih c (hp c) hmade.stands hd₁
  | fresh | emit | missingType | openGenerics => exact hp.1.elim
  | define | send | setAssemblyFile | snapshot | note | guarded | «catch» | later | drain
  | create =>
    exact hp.elim

omit hu hdeeper

/-- Runs repeat at every depth. -/
theorem runWithin_repeaters (hu : U.DescriptionsKeep w desc)
    (drain drain' : Nat → Context → Reply Unit)
    (room : Nat) :
    U.Repeaters w desc F (fun α p cx => w.runWithin drain room α p cx)
      fun α p cx => w.runWithin drain' room α p cx := by
  induction room with
  | zero =>
    exact ⟨runWithin_runnerKeeps hu drain 0, fun recipe c hk => hF.sure recipe c hk drain 0,
      fun hp h hd => eval_repeats hu.toEngineKeeps .none hF hfiles hp h hd⟩
  | succ room ih =>
    exact ⟨runWithin_runnerKeeps hu drain (room + 1),
      fun recipe c hk => hF.sure recipe c hk drain (room + 1),
      fun hp h hd => eval_repeats hu.toEngineKeeps (.some ih) hF hfiles hp h hd⟩

/-- What was done comes to the same when it is done again, and adds nothing. -/
theorem run_repeats (hu : U.DescriptionsKeep w desc) {p : Prog Unit} {budget : Nat} (hp : p.Gathers)
    (h : U.Stands desc cx)
    (hdone : w.run budget (p.bind fun _ => .drain (.pure ())) cx = ⟨.done (), F⟩)
    (hqueue : F.queue = []) (hd : F.DiagnosedOnly d) (budget' : Nat) :
    let r := w.run budget' (p.bind fun _ => .drain (.pure ())) d
    r.outcome = .done () ∧ F.DiagnosedOnly r.context := by
  let drain := fun room cx => w.drainWithin budget room cx
  let drain' := fun room cx => w.drainWithin budget' room cx
  have hframe := (run_kept hu hp permits_none h budget).frame
  rw [hdone] at hframe
  -- Both runs start on the same level: what failed has as much room to fail again.
  have hroom : d.room = cx.room := by
    rw [← hframe.room]
    exact congrArg₂ (· - ·) (congrArg ExtractionConfig.maxRecursionDepth hd.config)
      (show d.muted.depth = F.muted.depth by rw [hd.muted])
  have hroot := (runWithin_repeaters hF hfiles hu drain drain' cx.room).repeats hp h
    (.of_diagnosedOnly hd)
  have hkept := (runWithin_runnerKeeps hu drain cx.room).acts hp permits_none h
  simp only [World.run_drain, hroom]
  rw [World.run_drain] at hdone
  generalize w.runWithin drain cx.room Unit p cx = r at hroot hkept hdone
  obtain ⟨o, cx₁⟩ := r
  cases o with
  | failed | exhausted => cases hdone
  | done =>
    have hdrained := (drainWithin_kept hu budget cx.room hkept.stands).frame.events
    change (w.drainWithin budget cx.room cx₁).andThen _ = _ at hdone
    generalize w.drainWithin budget cx.room cx₁ = r at hdrained hdone
    obtain ⟨o, cx₂⟩ := r
    cases o with
    | failed | exhausted => cases hdone
    | done =>
      cases hdone
      obtain ⟨hdone', hdiagnosed⟩ := hroot rfl hdrained
      generalize w.runWithin drain' cx.room Unit p d = r at hdone' hdiagnosed
      obtain ⟨o, d₁⟩ := r
      cases hdone'
      have hempty : d₁.queue = [] := hdiagnosed.queue.trans hqueue
      have hidle : w.drainWithin budget' cx.room d₁ = ⟨.done (), d₁⟩ := by
        cases budget' <;> simp [World.drainWithin, hempty]
      simp only [Reply.andThen, hidle]
      exact ⟨trivial, hdiagnosed⟩

end ContextInvariant

end TrapFacts
