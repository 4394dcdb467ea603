import TrapFacts.Proofs.Engine.Permissions

/-! Programs that meet the limit: what is nested too deep ends all that it is nested in. -/

namespace TrapFacts

variable {α β : Type} {w : World} {cx cx₁ : Context} {en : Entity} {l : Label} {slot : Slot}
  {body : Prog Unit} {run : Runner} {drain : Nat → Context → Reply Unit} {room : Nat}
  {recipe : Recipe}

def Reply.MeetsLimit (r : Reply α) : Prop :=
  ∃ max, r.outcome = .failed (.recursionLimit max)

theorem Reply.MeetsLimit.andThen {r : Reply α} {next : α → Context → Reply β}
    (h : r.MeetsLimit) : (r.andThen next).MeetsLimit := by
  obtain ⟨o, cx⟩ := r
  obtain ⟨max, rfl⟩ := h
  exact ⟨max, rfl⟩

/-- Where no failure is permitted, the limit is met now or by what follows. -/
theorem Permissions.Ends.meets {ps : Permissions w} {good : α → Prop} {r : Reply α}
    {next : α → Context → Reply β} (h : ps.Ends good cx r) (hfails : ∀ e, ¬ ps.fails e)
    (hnext : ∀ a cx₁, ps.Kept cx₁ → Frame cx cx₁ → good a → (next a cx₁).MeetsLimit) :
    (r.andThen next).MeetsLimit := by
  cases h with
  | done hk hf hgood => exact hnext _ _ hk hf hgood
  | failed _ _ he => exact absurd he (hfails _)
  | met => exact ⟨_, rfl⟩

namespace World

/-- Recovery does not stop the failure that the limit causes. -/
theorem recover_meets {about : Option Concern} {node : Option NodeId} {symbol : Option SymbolId}
    {r : Reply Unit} (h : r.MeetsLimit) : (w.recover about node symbol r).MeetsLimit := by
  obtain ⟨o, cx⟩ := r
  obtain ⟨max, rfl⟩ := h
  exact ⟨max, rfl⟩

theorem describe_meets (h : (run Unit body (cx.populating en l)).MeetsLimit) :
    (w.describe run en l body cx).MeetsLimit :=
  recover_meets h

theorem populate_meets_plain (hb : en.behavior ≠ .pushesScope)
    (h : (w.describe run en l body cx).MeetsLimit) : (w.populate run en l body cx).MeetsLimit := by
  have hplan : ¬ (en.behavior.plan (!cx.guards.isEmpty)).duplicationGuard = true := fun h =>
    hb (plan_duplicationGuard.1 h)
  unfold populate
  rwa [if_neg hplan]

/-- In the trap of an assembly an entity is described right where the place for its guard was
made. -/
theorem populate_meets (hs : w.scope.isAssembly = true) (hb : en.behavior = .pushesScope)
    (h : ((run Created (.entity (.location en.reportingLocation?)) cx).andThen fun _ cx =>
      w.describe run en l body cx).MeetsLimit) :
    (w.populate run en l body cx).MeetsLimit := by
  have hplan : (en.behavior.plan (!cx.guards.isEmpty)).duplicationGuard = true :=
    plan_duplicationGuard.2 hb
  have hguarding : ∀ key action, w.guarding key action = action := fun key action => by
    funext cx
    unfold guarding
    rw [if_pos hs]
  unfold populate
  rw [if_pos hplan]
  simpa only [hguarding] using h

/-- Outside of guards nothing is queued. -/
theorem schedule_meets (hg : cx.guards = []) (hb : en.behavior ≠ .needsScope)
    (h : (w.populate run en l body cx).MeetsLimit) :
    (w.schedule run en l body cx).MeetsLimit := by
  have hguard : (!cx.guards.isEmpty) = false := by simp [hg]
  have hnow : ¬ (en.behavior.plan false).deferred = true := fun h => by
    cases (plan_deferred.1 h).1
  have hfine : ¬ (en.behavior.plan false).missingGuard = true := fun h =>
    hb (plan_missingGuard.1 h).2
  unfold schedule complain
  dsimp only
  rw [hguard, if_neg hfine, if_neg hnow]
  exact recover_meets h

/-- A new entity that is described at once meets the limit where its description does. -/
theorem settle_meets {body : Entity → Label → Prog Unit} (hs : cx.same? slot en = none)
    (hn : en.needsPopulation = true) (hg : cx.guards = []) (hb : en.behavior ≠ .needsScope)
    (h : (w.populate run en cx.nextLabel (body en cx.nextLabel)
      (cx.introduce slot en).2).MeetsLimit) :
    (w.settle run slot body en cx).MeetsLimit := by
  unfold settle
  simp only [hs]
  rw [if_pos hn]
  exact (schedule_meets ((cx.guards_introduce slot en).trans hg) hb h).andThen

/-- The entity of a recipe takes more levels than there is room for. -/
def TooDeep (w : World) (drain : Nat → Context → Reply Unit) (room : Nat) (recipe : Recipe)
    (cx : Context) : Prop :=
  (w.runWithin drain room Created (.entity recipe) cx).MeetsLimit

/-- Where no level is left, nothing new can be made. -/
theorem tooDeep_zero (hnew : cx.known? (w.catalog recipe).slot = none) :
    w.TooDeep drain 0 recipe cx := by
  have hobtain : (w.obtain? none (w.catalog recipe).slot (w.catalog recipe).factory
      (w.catalog recipe).body cx).MeetsLimit := by
    unfold obtain?
    simp only [hnew]
    exact ⟨_, rfl⟩
  exact hobtain.andThen

/-- What takes too many levels takes one more than its making does. -/
theorem tooDeep_succ (hnew : cx.known? (w.catalog recipe).slot = none)
    (h : let c := w.catalog recipe
      let run : Runner := fun α p cx => w.runWithin drain room α p cx
      ((run Entity c.factory (cx.enter c.slot)).andThen (w.settle run c.slot c.body)).MeetsLimit) :
    w.TooDeep drain (room + 1) recipe cx := by
  have hobtain : (w.obtain? (some fun α p cx => w.runWithin drain room α p cx)
      (w.catalog recipe).slot (w.catalog recipe).factory (w.catalog recipe).body
      cx).MeetsLimit := by
    have hbuild : (w.build (fun α p cx => w.runWithin drain room α p cx) (w.catalog recipe).slot
        (w.catalog recipe).factory (w.catalog recipe).body cx).MeetsLimit := h
    unfold obtain?
    simp only [hnew]
    exact hbuild.andThen
  exact hobtain.andThen

theorem runWithin_known {c : Created} (hknown : cx.known? (w.catalog recipe).slot = some c) :
    w.runWithin drain room Created (.entity recipe) cx =
      ⟨.done c, cx.log (.served (w.catalog recipe).slot c)⟩ := by
  have hobtain : ∀ deeper, w.obtain? deeper (w.catalog recipe).slot (w.catalog recipe).factory
      (w.catalog recipe).body cx = ⟨.done c, cx.log (.served (w.catalog recipe).slot c)⟩ := by
    intro deeper
    unfold obtain?
    simp only [hknown]
  cases room with
  | zero =>
    change (w.obtain? none _ _ _ cx).andThen _ = _
    rw [hobtain]
    rfl
  | succ room =>
    change (w.obtain? (some _) _ _ _ cx).andThen _ = _
    rw [hobtain]
    rfl

theorem runWithin_emit (t : Tuple) (p : Prog α) (cx : Context) :
    w.runWithin drain room α (.emit t p) cx = w.runWithin drain room α p (cx.write (.tuple t)) := by
  cases room <;> rfl

/-- An attempt does not stop the failure that the limit causes. -/
theorem attempt_meets {node : Option NodeId} {symbol : Option SymbolId} {p : Prog α}
    (h : (w.runWithin drain room Unit body cx).MeetsLimit) :
    (w.runWithin drain room α (.attempt node symbol body p) cx).MeetsLimit := by
  cases room <;> exact (recover_meets h).andThen

/-- What meets the limit in its first part meets it as a whole. -/
theorem bind_meets {p : Prog α} {f : α → Prog β} (h : (w.runWithin drain room α p cx).MeetsLimit) :
    (w.runWithin drain room β (p.bind f) cx).MeetsLimit := by
  rw [runWithin_bind]
  exact h.andThen

theorem bind_meets_next {p : Prog α} {f : α → Prog β} {a : α}
    (hp : w.runWithin drain room α p cx = ⟨.done a, cx₁⟩)
    (h : (w.runWithin drain room β (f a) cx₁).MeetsLimit) :
    (w.runWithin drain room β (p.bind f) cx).MeetsLimit := by
  rw [runWithin_bind, hp]
  exact h

end World

end TrapFacts
