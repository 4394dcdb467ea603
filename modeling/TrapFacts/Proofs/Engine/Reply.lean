import TrapFacts.Proofs.Engine.Trail

/-! Each function of the engine goes a trail, if what it is given to run does. -/

namespace TrapFacts

variable {α β : Type} {w : World} {m : Manner} {cx cx₁ cx' : Context} {en : Entity} {l : Label}
  {slot : Slot} {run : Runner} {body : Prog Unit}

/-- Whether nothing can follow. -/
def Outcome.stops : Outcome α → Bool
  | .done _ => false
  | .failed e => e.isFatal
  | .exhausted => true

theorem Reply.andThen_assoc {γ : Type} (r : Reply α) (f : α → Context → Reply β)
    (g : β → Context → Reply γ) :
    (r.andThen f).andThen g = r.andThen fun a cx => (f a cx).andThen g := by
  obtain ⟨o, cx⟩ := r
  cases o <;> rfl

/-- A sequence of programs runs one after the other. -/
theorem World.eval_bind (deeper : Option Runner) (drain : Context → Reply Unit) (p : Prog α)
    (f : α → Prog β) (cx : Context) :
    w.eval deeper drain (p.bind f) cx =
      (w.eval deeper drain p cx).andThen fun a cx => w.eval deeper drain (f a) cx := by
  induction p generalizing cx with
  | pure | fail => rfl
  | modelError symbol text k ih =>
    simp only [Prog.bind, eval]
    split
    · exact ih f cx
    · rfl
  | openGenerics label k ih => exact ih _ f _
  | guarded | attempt | drain | create | summon => simp_all [Prog.bind, eval, Reply.andThen_assoc]
  | «catch» body k ihb ihk =>
    simp only [Prog.bind, eval]
    split <;> simp_all [Reply.andThen]
  | _ => simp_all [Prog.bind, eval]

/-- A sequence runs as its parts do, one after the other. -/
theorem World.runWithin_bind (drain : Nat → Context → Reply Unit) (room : Nat) (p : Prog α)
    (f : α → Prog β) (cx : Context) :
    w.runWithin drain room β (p.bind f) cx =
      (w.runWithin drain room α p cx).andThen fun a cx => w.runWithin drain room β (f a) cx := by
  cases room <;> exact eval_bind _ _ p f cx

/-- A program runs, and then what it queued. -/
theorem World.run_drain (budget : Nat) (p : Prog Unit) (cx : Context) :
    w.run budget (p.bind fun _ => .drain (.pure ())) cx =
      (w.runWithin (fun room cx => w.drainWithin budget room cx) cx.room Unit p cx).andThen
        fun _ cx' => (w.drainWithin budget cx.room cx').andThen fun _ cx' => ⟨.done (), cx'⟩ := by
  change w.runWithin _ cx.room Unit _ cx = _
  rw [runWithin_bind]
  cases cx.room <;> rfl

def Context.Erred (cx : Context) : Prop :=
  ∃ message about, .sent message about ∈ cx.events ∧ message.severity = .error

theorem Context.Erred.mono (h : cx.Erred) (he : cx.events <+: cx'.events) : cx'.Erred := by
  obtain ⟨message, about, hs, hm⟩ := h
  exact ⟨message, about, he.subset hs, hm⟩

theorem Model.severity_failureMessage (m : Model) (e : Failure) (node : Option NodeId)
    (symbol : Option SymbolId) : (m.failureMessage e node symbol).severity = .error := by
  unfold failureMessage attributed
  cases e <;> cases symbol.or _ <;> rfl

theorem Model.severity_complaint (m : Model) (en : Entity) :
    (m.complaint en).severity = .error := by
  unfold complaint attributed
  cases en.symbol? <;> rfl

theorem Context.erred_send {message : Message} {about : Option Concern}
    (h : message.severity = .error) : (cx.send message about).Erred :=
  ⟨message, about, by simp, h⟩

/-- A reply that a trail led to. What it returns satisfies `done`, and so do failures `fails`
unless they are fatal. -/
structure Goes (w : World) (m : Manner) (cx : Context) (r : Reply α)
    (done : α → Context → Prop) (fails : Failure → Prop) : Prop where
  trail : Trail w m [] r.outcome.stops cx r.context
  result : ∀ a, r.outcome = .done a → done a r.context
  failure : ∀ e, r.outcome = .failed e → e.isFatal = false → fails e

theorem goes_of_trail {r : Reply α} (h : Trail w m [] r.outcome.stops cx r.context) :
    Goes w m cx r (fun _ _ => True) (fun _ => True) :=
  ⟨h, fun _ _ => trivial, fun _ _ _ => trivial⟩

/-- A reply whose trail spent a description, whatever became of it. -/
structure Spends (w : World) (m : Manner) (d : Due) (cx : Context) (r : Reply Unit) : Prop where
  trail : Trail w m [d] r.outcome.stops cx r.context
  done : r.outcome.stops = false → r.outcome = .done ()

namespace Goes

variable {r : Reply α} {done : α → Context → Prop} {fails : Failure → Prop}

theorem of_done {a : α} (h : done a cx) : Goes w m cx ⟨.done a, cx⟩ done fails :=
  ⟨.refl cx, by rintro _ ⟨⟩; exact h, by rintro _ ⟨⟩⟩

theorem of_failed {e : Failure} (h : e.isFatal = false → fails e) :
    Goes w m cx ⟨.failed e, cx⟩ done fails := by
  refine ⟨?_, by rintro _ ⟨⟩, by rintro _ ⟨⟩ he; exact h he⟩
  cases he : e.isFatal with
  | true => simpa [Outcome.stops, he] using Trail.stop [] (.refl cx)
  | false => simpa [Outcome.stops, he] using Trail.refl cx

theorem mono {done' : α → Context → Prop} {fails' : Failure → Prop} (h : Goes w m cx r done fails)
    (hd : ∀ a cx', done a cx' → done' a cx') (hf : ∀ e, fails e → fails' e) :
    Goes w m cx r done' fails' :=
  ⟨h.trail, fun a ha => hd _ _ (h.result a ha), fun e he hn => hf e (h.failure e he hn)⟩

theorem after (ht : Trail w m [] false cx cx₁) (h : Goes w m cx₁ r done fails) :
    Goes w m cx r done fails :=
  ⟨ht.trans h.trail, h.result, h.failure⟩

theorem andThen {next : α → Context → Reply β} {done' : β → Context → Prop}
    (h : Goes w m cx r done fails)
    (hn : ∀ a cx₁, Trail w m [] false cx cx₁ → done a cx₁ →
      Goes w m cx₁ (next a cx₁) done' fails) :
    Goes w m cx (r.andThen next) done' fails := by
  obtain ⟨o, cx₁⟩ := r
  cases o with
  | done a => exact (hn a cx₁ h.trail (h.result a rfl)).after h.trail
  | failed e => exact ⟨h.trail, by rintro _ ⟨⟩, by rintro _ ⟨⟩ he; exact h.failure e rfl he⟩
  | exhausted => exact ⟨h.trail, by rintro _ ⟨⟩, by rintro _ ⟨⟩⟩

end Goes

namespace World

/-- Recovered, a failure is reported and no failure any more. -/
theorem recover_goes {r : Reply Unit} {done : Unit → Context → Prop} {fails : Failure → Prop}
    (node : Option NodeId) (symbol : Option SymbolId) (h : Goes w m cx r done fails) :
    Goes w m cx (w.recover none node symbol r) (fun a cx' => done a cx' ∨ cx'.Erred)
      (fun _ => False) := by
  obtain ⟨o, cx₁⟩ := r
  have ht := h.trail
  cases o with
  | done a => exact ⟨ht, fun a ha => .inl (h.result a ha), by rintro _ ⟨⟩⟩
  | exhausted => exact ⟨ht, by rintro _ ⟨⟩, by rintro _ ⟨⟩⟩
  | failed e =>
    cases he : e.isFatal with
    | true =>
      simp only [recover, he, if_true]
      exact ⟨ht, by rintro _ ⟨⟩, by rintro _ ⟨⟩ hn; simp [he] at hn⟩
    | false =>
      simp only [Outcome.stops, he] at ht
      simp only [recover, he]
      refine ⟨ht.trans (.sent _ _), fun _ _ => .inr ?_, by rintro _ ⟨⟩⟩
      exact Context.erred_send (w.model.severity_failureMessage _ _ _)

/-- A guard is a trail around what happens under it. -/
theorem guarding_trail {key : Key} {action : Context → Reply Unit} (hkey : m.guard key)
    (h : ∀ cx', cx' = cx ∨ cx' = cx.openGuard key →
      Trail w m [] (action cx').outcome.stops cx' (action cx').context) :
    Trail w m [] (w.guarding key action cx).outcome.stops cx
      (w.guarding key action cx).context := by
  unfold guarding
  split
  · exact h cx (.inl rfl)
  · next hs => exact .guarded (by simpa using hs) hkey (h _ (.inr rfl))

/-- What a description needs to go a trail: its body opens and closes in the manner's way. -/
def Opens (w : World) (m : Manner) (run : Runner) (en : Entity) (l : Label) (body : Prog Unit)
    (cx : Context) : Prop :=
  (∃ cx₁, m.opening en l (cx.populating en l) cx₁ ∧
    Trail w m [] (run Unit body (cx.populating en l)).outcome.stops cx₁
      (run Unit body (cx.populating en l)).context) ∧
  ((w.describe run en l body cx).outcome.stops = false →
    m.closing en l cx (w.describe run en l body cx).context)

theorem describe_opens (h : Opens w m run en l body cx) :
    ∃ cx₁, m.opening en l (cx.populating en l) cx₁ ∧
      Trail w m [] (w.describe run en l body cx).outcome.stops cx₁
        (w.describe run en l body cx).context ∧
      ((w.describe run en l body cx).outcome.stops = false →
        (w.describe run en l body cx).outcome = .done ()) := by
  obtain ⟨⟨cx₁, ho, ht⟩, -⟩ := h
  refine ⟨cx₁, ho, ?_⟩
  have hpop : Event.populating en l ∈ (run Unit body (cx.populating en l)).context.events := by
    apply ht.frame.events.subset
    apply (Trail.of_deeds (w := w) (m := .free) (m.openings ho)).frame.events.subset
    simp
  unfold describe
  generalize run Unit body (cx.populating en l) = r at ht hpop
  obtain ⟨o, cx₂⟩ := r
  cases o with
  | done => exact ⟨ht, fun _ => rfl⟩
  | exhausted => exact ⟨ht, by simp [recover, Outcome.stops]⟩
  | failed e =>
    cases he : e.isFatal with
    | true => simpa [recover, Outcome.stops, he] using ht
    | false =>
      simp only [Outcome.stops, he] at ht
      simp only [recover, he]
      exact ⟨ht.trans (.reported _ hpop), fun _ => rfl⟩

/-- A description that ends has done what its body does, or reported an error. -/
theorem describe_closes {Q : Context → Prop} {fails : Failure → Prop}
    (hs : (w.describe run en l body cx).outcome.stops = false)
    (h : Goes w m cx₁ (run Unit body (cx.populating en l)) (fun _ => Q) fails) :
    Q (w.describe run en l body cx).context ∨ (w.describe run en l body cx).context.Erred := by
  unfold describe at hs ⊢
  generalize run Unit body (cx.populating en l) = r at h hs
  obtain ⟨o, cx₂⟩ := r
  cases o with
  | done a => exact .inl (h.result a rfl)
  | exhausted => simp [recover, Outcome.stops] at hs
  | failed e =>
    cases he : e.isFatal with
    | true => simp [recover, Outcome.stops, he] at hs
    | false =>
      simp only [recover, he]
      exact .inr (Context.erred_send (w.model.severity_failureMessage _ _ _))

/-- A description of an entity without a guard of its own. -/
theorem describe_spends (hb : en.behavior ≠ .pushesScope ∨ w.scope.isAssembly = true)
    (hp : m.place en) (h : Opens w m run en l body cx) :
    Spends w m (en, l) cx (w.describe run en l body cx) := by
  obtain ⟨cx₁, ho, ht, hd⟩ := describe_opens h
  exact ⟨.described hb hp ho ht h.2, hd⟩

/-- A description of an entity with a guard of its own: that of the entity's label and place. -/
theorem guarding_describe_spends {place : Created} (hb : en.behavior = .pushesScope)
    (hp : m.place en)
    (hplace : Event.served (w.catalog (.location en.reportingLocation?)).slot place ∈ cx.events)
    (hsite : m.site en place.label cx)
    (hplain : w.scope.isAssembly = true → Opens w m run en l body cx)
    (hguarded : w.scope.isAssembly = false →
      Opens w m run en l body (cx.openGuard (.label l (.ofLabel place.label)))) :
    Spends w m (en, l) cx
      (w.guarding (.label l (.ofLabel place.label)) (w.describe run en l body) cx) := by
  unfold guarding
  split
  · next hs => exact describe_spends (.inr hs) hp (hplain hs)
  · next hs =>
    have hs : w.scope.isAssembly = false := by simpa using hs
    obtain ⟨cx₁, ho, ht, hd⟩ := describe_opens (hguarded hs)
    exact ⟨.describedGuarded hb hs hp hplace hsite ho ht (hguarded hs).2, hd⟩

/-- A description spends what is owed, unless it is given up for want of a place. -/
def Tries (w : World) (m : Manner) (en : Entity) (l : Label) (cx : Context) (r : Reply Unit) :
    Prop :=
  Spends w m (en, l) cx r ∨ ∃ e, r.outcome = .failed e ∧ e.isFatal = false ∧
    Trail w m [] false cx r.context ∧ m.excuse en (w.model.failureMessage e none en.symbol?)

theorem plan_duplicationGuard {b : Behavior} {g : Bool} :
    (b.plan g).duplicationGuard = true ↔ b = .pushesScope := by
  cases b <;> simp [Behavior.plan]

/-- A description is put off under a guard, unless it has to stay there. -/
theorem plan_deferred {b : Behavior} {g : Bool} :
    (b.plan g).deferred = true ↔ g = true ∧ (b = .noScope ∨ b = .pushesScope) := by
  cases b <;> simp [Behavior.plan]

/-- What needs a guard misses it where none is open. -/
theorem plan_missingGuard {b : Behavior} {g : Bool} :
    (b.plan g).missingGuard = true ↔ g = false ∧ b = .needsScope := by
  cases b <;> simp [Behavior.plan]

/-- What the making of an entity's place comes to. -/
def Places (w : World) (m : Manner) (run : Runner) (en : Entity) (cx : Context) : Prop :=
  let recipe : Recipe := .location en.reportingLocation?
  Goes w m cx (run Created (.entity recipe) cx)
    (fun c cx' => Event.served (w.catalog recipe).slot c ∈ cx'.events ∧
      (en.behavior = .pushesScope → m.place en ∧ m.site en c.label cx'))
    (fun e => en.behavior = .pushesScope → m.excuse en (w.model.failureMessage e none en.symbol?))

/-- What scheduling a description relies on: a condition that trails leave true. Wherever it holds,
the entity's place can be made, and the description opens and closes in the manner's way, inside
its own guard if it has one. -/
structure Describable (w : World) (m : Manner) (run : Runner) (en : Entity) (l : Label)
    (body : Prog Unit) (P : Context → Prop) : Prop where
  trail : ∀ {cx cx'}, P cx → Trail w m [] false cx cx' → P cx'
  free : en.behavior ≠ .pushesScope → m.place en
  places : ∀ {cx}, P cx → Places w m run en cx
  plain : ∀ {cx}, en.behavior ≠ .pushesScope ∨ w.scope.isAssembly = true → P cx →
    Opens w m run en l body cx
  guarded : ∀ {cx place}, en.behavior = .pushesScope → w.scope.isAssembly = false → P cx →
    m.site en place cx → Opens w m run en l body (cx.openGuard (.label l (.ofLabel place)))

theorem populate_tries {P : Context → Prop} (h : Describable w m run en l body P) (hcx : P cx) :
    Tries w m en l cx (w.populate run en l body cx) := by
  have hplace := h.places hcx
  unfold populate
  split
  · next hg =>
    have hb := plan_duplicationGuard.1 hg
    unfold Places at hplace
    dsimp only at hplace
    generalize run Created _ cx = r at hplace
    obtain ⟨o, cx₁⟩ := r
    cases o with
    | done place =>
      have hcx₁ : P cx₁ := h.trail hcx hplace.trail
      obtain ⟨hserved, hp⟩ := hplace.result place rfl
      have hs := guarding_describe_spends hb (hp hb).1 hserved (hp hb).2
        (fun hs => h.plain (.inr hs) hcx₁) fun hs => h.guarded hb hs hcx₁ (hp hb).2
      exact .inl ⟨hplace.trail.nil_append hs.trail, hs.done⟩
    | exhausted => exact .inl ⟨.stop _ hplace.trail, by simp [Reply.andThen, Outcome.stops]⟩
    | failed e =>
      cases he : e.isFatal with
      | true => exact .inl ⟨by simpa [Reply.andThen, Outcome.stops, he] using .stop _ hplace.trail,
          by simp [Reply.andThen, Outcome.stops, he]⟩
      | false =>
        have ht := hplace.trail
        simp only [Outcome.stops, he] at ht
        exact .inr ⟨e, rfl, he, ht, hplace.failure e rfl he hb⟩
  · next hg =>
    have hb := mt plan_duplicationGuard.2 hg
    exact .inl (describe_spends (.inl hb) (h.free hb) (h.plain (.inl hb) hcx))

/-- Reported about the entity, a description that was given up is spent. -/
theorem recover_spends {r : Reply Unit} (h : Tries w m en l cx r) :
    Spends w m (en, l) cx (w.recover (some (.failure l)) none en.symbol? r) := by
  rcases h with ⟨ht, hd⟩ | ⟨e, he, hn, ht, hx⟩
  · obtain ⟨o, cx₁⟩ := r
    cases o with
    | done | exhausted => exact ⟨ht, hd⟩
    | failed e =>
      cases he : e.isFatal with
      | true => simpa [recover, he] using Spends.mk ht hd
      | false => cases hd he
  · obtain ⟨o, cx₁⟩ := r
    cases he
    simp only [recover, hn]
    exact ⟨ht.nil_append (.excused hx), fun _ => rfl⟩

theorem schedule_spends {P : Context → Prop} (h : Describable w m run en l body P)
    (hcx : (en.behavior.plan (!cx.guards.isEmpty)).deferred = false → P cx)
    (hbody : m.body en l body) :
    Spends w m (en, l) cx (w.schedule run en l body cx) := by
  have hc : Trail w m [] false cx (w.complain (en.behavior.plan (!cx.guards.isEmpty)) en l cx) := by
    unfold complain
    split
    · next hm =>
      obtain ⟨hg, hb⟩ := plan_missingGuard.1 hm
      exact .complaint _ hbody hb (by simpa using hg)
    · exact .refl _
  unfold schedule
  dsimp only
  generalize w.complain _ en l cx = cx₁ at hc
  split
  · next hd =>
    obtain ⟨hg, hb⟩ := plan_deferred.1 hd
    rw [← hc.frame.guards] at hg
    exact ⟨hc.nil_append (.deferred hbody (by simpa using hg) hb), fun _ => rfl⟩
  · next hd =>
    have hcx₁ : P cx₁ := h.trail (hcx (by simpa using hd)) hc
    have hs := recover_spends (populate_tries h hcx₁)
    exact ⟨hc.nil_append hs.trail, hs.done⟩

theorem introduce_goes {fails : Failure → Prop} (hsame : cx.same? slot en = none)
    (hentity : m.entity slot en cx)
    (h : en.needsPopulation = true →
      Spends w m (en, cx.nextLabel) (cx.introduce slot en).2
        (w.schedule run en cx.nextLabel body (cx.introduce slot en).2)) :
    Goes w m cx
      (if en.needsPopulation then
        (w.schedule run en cx.nextLabel body (cx.introduce slot en).2).andThen fun _ cx' =>
          ⟨.done (cx.introduce slot en).1, cx'⟩
      else ⟨.done (cx.introduce slot en).1, (cx.introduce slot en).2⟩)
      (fun c cx' => c = (cx.introduce slot en).1 ∧ Frame (cx.introduce slot en).2 cx') fails := by
  split
  · next hp =>
    have hs := h hp
    generalize w.schedule run en cx.nextLabel body _ = r at hs
    obtain ⟨o, cx'⟩ := r
    have ht : Trail w m [] o.stops cx cx' := by
      refine .introduced hsame hentity ?_
      rw [Created.dues, if_pos (show (cx.introduce slot en).1.entity.needsPopulation from hp)]
      exact hs.trail
    cases o with
    | done => exact ⟨ht, by rintro _ ⟨⟩; exact ⟨rfl, hs.trail.frame⟩, by rintro _ ⟨⟩⟩
    | exhausted => exact ⟨ht, by rintro _ ⟨⟩, by rintro _ ⟨⟩⟩
    | failed e =>
      refine ⟨ht, by rintro _ ⟨⟩, ?_⟩
      rintro _ ⟨⟩ he
      cases hs.done he
  · next hp =>
    refine ⟨.introduced hsame hentity ?_, by rintro _ ⟨⟩; exact ⟨rfl, .refl _⟩, by rintro _ ⟨⟩⟩
    rw [Created.dues, if_neg (show ¬ (cx.introduce slot en).1.entity.needsPopulation from hp)]
    exact .refl _

/-- What is settled on for a slot is what the slot has. Without an object, it is the entity that
was made. -/
theorem settle_goes {body : Entity → Label → Prog Unit} {fails : Failure → Prop}
    (hentity : cx.same? slot en = none → m.entity slot en cx)
    (h : cx.same? slot en = none → en.needsPopulation = true →
      Spends w m (en, cx.nextLabel) (cx.introduce slot en).2
        (w.schedule run en cx.nextLabel (body en cx.nextLabel) (cx.introduce slot en).2)) :
    Goes w m cx (w.settle run slot body en cx)
      (fun c cx' => cx'.same? slot c.entity = some c ∧ (slot = .value → c.entity = en) ∧
        cx.events <+: cx'.events) fails := by
  unfold settle
  cases hsame : cx.same? slot en with
  | some c =>
    refine .of_done ?_
    cases slot with
    | object => exact ⟨hsame, by simp, List.prefix_rfl⟩
    | value =>
      simp only [Context.same?, Option.map_eq_some_iff] at hsame ⊢
      obtain ⟨l, hl, rfl⟩ := hsame
      exact ⟨⟨l, hl, rfl⟩, fun _ => rfl, List.prefix_rfl⟩
  | none =>
    refine (introduce_goes hsame (hentity hsame) (h hsame)).mono ?_ fun _ h => h
    rintro _ cx' ⟨rfl, hf⟩
    refine ⟨hf.same ?_, fun _ => rfl, (Frame.introduce hsame).events.trans hf.events⟩
    rw [Context.same?_introduce, if_pos ⟨rfl, fun _ => rfl⟩]
    simp [Context.introduce]

/-- What a creation needs to go a trail: so does its factory, one level deeper, and so do the
descriptions of what the factory makes. -/
def Makes (w : World) (m : Manner) (run : Runner) (slot : Slot) (factory : Prog Entity)
    (body : Entity → Label → Prog Unit) (yields : Entity → Context → Prop) (fails : Failure → Prop)
    (cx : Context) : Prop :=
  Goes w m (cx.enter slot) (run Entity factory (cx.enter slot)) yields fails ∧
  ∀ en cx₁, Trail w m [] false (cx.enter slot) cx₁ → yields en cx₁ → cx₁.same? slot en = none →
    m.entity slot en cx₁ ∧ (en.needsPopulation = true →
      Spends w m (en, cx₁.nextLabel) (cx₁.introduce slot en).2
        (w.schedule run en cx₁.nextLabel (body en cx₁.nextLabel) (cx₁.introduce slot en).2))

/-- What remains true of an entity, whatever happens. -/
def Lasts (yields : Entity → Context → Prop) : Prop :=
  ∀ ⦃en cx cx'⦄, yields en cx → cx.events <+: cx'.events → yields en cx'

variable {factory : Prog Entity} {yields : Entity → Context → Prop} {fails : Failure → Prop}

/-- A creation goes through its factory, then through the description or past it. -/
theorem build_goes {body : Entity → Label → Prog Unit} (hlast : Lasts yields)
    (hd : cx.depth < cx.maxDepth) (hk : cx.known? slot = none)
    (h : Makes w m run slot factory body yields fails cx) :
    Goes w m cx (w.build run slot factory body cx)
      (fun c cx' => cx'.same? slot c.entity = some c ∧ (slot = .value → yields c.entity cx'))
      fails := by
  obtain ⟨hf, hmade⟩ := h
  have hsettle : ∀ en cx₁, Trail w m [] false (cx.enter slot) cx₁ → yields en cx₁ →
      Goes w m cx₁ (w.settle run slot body en cx₁)
        (fun c cx' => cx'.same? slot c.entity = some c ∧ (slot = .value → yields c.entity cx'))
        fails := by
    intro en cx₁ ht hen
    have hnew := hmade en cx₁ ht hen
    refine (settle_goes (fun hs => (hnew hs).1) fun hs => (hnew hs).2).mono ?_ fun _ hf => hf
    rintro c cx' ⟨hs, hen', hmono⟩
    exact ⟨hs, fun hv => hen' hv ▸ hlast hen hmono⟩
  have hb := hf.andThen hsettle
  refine ⟨.nested hk hd hb.trail, fun c hc => ?_, hb.failure⟩
  obtain ⟨hs, hknown⟩ := hb.result c hc
  exact ⟨hs, fun hv => hlast (hknown hv) List.prefix_rfl⟩

theorem obtain?_goes {deeper : Option Runner} {body : Entity → Label → Prog Unit}
    (hlast : Lasts yields) (hroom : deeper.isSome ↔ 0 < cx.room)
    (h : ∀ run, deeper = some run → cx.known? slot = none →
      Makes w m run slot factory body yields fails cx) :
    Goes w m cx (w.obtain? deeper slot factory body cx)
      (fun c cx' => Event.served slot c ∈ cx'.events ∧ (slot = .value → yields c.entity cx'))
      fails := by
  unfold obtain?
  cases hk : cx.known? slot with
  | some c =>
    have hs : slot ≠ .value ∧ cx.same? slot c.entity = some c := by
      cases slot with
      | object => exact ⟨by simp, hk⟩
      | value => simp [Context.known?] at hk
    exact ⟨.served hs.2, by rintro _ ⟨⟩; simp [hs.1], by rintro _ ⟨⟩⟩
  | none =>
    cases deeper with
    | none =>
      have hfull : cx.maxDepth ≤ cx.depth := by
        simp only [Context.room] at hroom
        simp at hroom
        omega
      exact ⟨.limit hfull, by rintro _ ⟨⟩, by rintro _ ⟨⟩; simp [Failure.isFatal]⟩
    | some run =>
      have hd : cx.depth < cx.maxDepth := by
        simp [Context.room] at hroom
        omega
      refine (build_goes hlast hd hk (h run rfl hk)).andThen fun c cx₁ _ hc => ?_
      refine ⟨.served hc.1, ?_, by rintro _ ⟨⟩⟩
      rintro _ ⟨⟩
      exact ⟨by simp, fun hv => hlast (hc.2 hv) (Frame.log _ _).events⟩

/-- Work off the queue goes on under the guard that it was put off under. -/
theorem resume_goes {a : Pending} {rest : List Pending} (hq : cx.queue = a :: rest)
    (hguard : ∀ key body, a.work = .program (some key) body → m.guard key)
    (hprogram : ∀ guard body, a.work = .program guard body → ∀ cx', cx'.room = cx.room →
      Goes w m cx' (run Unit body cx') (fun _ _ => True) (fun _ => True))
    (hpopulation : ∀ en l body, a.work = .population en l body →
      Tries w m en l ((cx.take a rest).log (.began a.number))
        (w.populate run en l body ((cx.take a rest).log (.began a.number)))) :
    Goes w m cx (w.resume run a (cx.take a rest)) (fun _ _ => True) (fun _ => False) := by
  obtain ⟨n, work⟩ := a
  cases work with
  | population en l body =>
    have hs := recover_spends (hpopulation en l body rfl)
    refine ⟨.taken hq hs.trail, fun _ _ => trivial, fun e he hn => ?_⟩
    have hd := hs.done (by simp only [resume] at he; rw [he]; exact hn)
    simp only [resume] at he
    rw [hd] at he
    cases he
  | program guard body =>
    have hrun := hprogram guard body rfl
    refine (recover_goes none none (goes_of_trail ?_)).mono (fun _ _ _ => trivial) fun _ hf => hf
    cases guard with
    | none => exact .taken hq (hrun ((cx.take ⟨n, _⟩ rest).log _) rfl).trail
    | some key =>
      dsimp only
      unfold guarding
      split
      · exact .taken hq (hrun ((cx.take ⟨n, _⟩ rest).log _) rfl).trail
      · next hs =>
        exact .takenGuarded hq (by simpa using hs) (hguard key body rfl)
          (hrun (((cx.take ⟨n, _⟩ rest).openGuard key).log _) rfl).trail

end World

end TrapFacts
