import Mathlib.Data.Option.Defs
import TrapFacts.Proofs.Engine.Reply

/-! A larger budget changes nothing, unless the smaller one ran out. -/

namespace TrapFacts

variable {α β : Type} {w : World} {run run' : Runner} {deeper deeper' : Option Runner}
  {drain drain' : Context → Reply Unit} {cx : Context}

/-- Unless the budget of the first reply ran out, the second is the same. -/
def Reply.Upheld (r r' : Reply α) : Prop :=
  r.outcome = .exhausted ∨ r' = r

/-- What the first runner comes to, the second comes to as well. -/
def Upholds (run run' : Runner) : Prop :=
  ∀ α p cx, (run α p cx).Upheld (run' α p cx)

namespace Reply.Upheld

variable {r r' : Reply α}

theorem refl (r : Reply α) : r.Upheld r :=
  .inr rfl

theorem andThen {f f' : α → Context → Reply β} (h : r.Upheld r')
    (hf : ∀ a cx, (f a cx).Upheld (f' a cx)) : (r.andThen f).Upheld (r'.andThen f') := by
  obtain ⟨o, cx⟩ := r
  rcases h with h | rfl
  · obtain rfl : o = .exhausted := h
    exact .inl rfl
  · cases o with
    | done a => exact hf a cx
    | failed | exhausted => exact .refl _

/-- Whatever is done to the context in the end. -/
theorem after (h : r.Upheld r') (f : Context → Context) :
    Reply.Upheld ⟨r.outcome, f r.context⟩ ⟨r'.outcome, f r'.context⟩ := by
  rcases h with h | rfl
  · exact .inl h
  · exact .refl _

/-- Recovery reports the same failure on both sides. -/
theorem recover {r r' : Reply Unit} (h : r.Upheld r') (about : Option Concern)
    (node : Option NodeId) (symbol : Option SymbolId) :
    (w.recover about node symbol r).Upheld (w.recover about node symbol r') := by
  rcases h with h | rfl
  · obtain ⟨o, cx⟩ := r
    obtain rfl : o = .exhausted := h
    exact .inl rfl
  · exact .refl _

end Reply.Upheld

namespace World

theorem guarding_upheld {action action' : Context → Reply Unit}
    (h : ∀ cx, (action cx).Upheld (action' cx)) (key : Key) (cx : Context) :
    (w.guarding key action cx).Upheld (w.guarding key action' cx) := by
  unfold guarding
  split
  · exact h cx
  · exact (h _).after _

section

variable (hrun : Upholds run run')

include hrun

theorem describe_upheld (entity : Entity) (label : Label) (body : Prog Unit) (cx : Context) :
    (w.describe run entity label body cx).Upheld (w.describe run' entity label body cx) :=
  (hrun _ _ _).recover _ _ _

theorem populate_upheld (entity : Entity) (label : Label) (body : Prog Unit) (cx : Context) :
    (w.populate run entity label body cx).Upheld (w.populate run' entity label body cx) := by
  unfold populate
  split
  · exact (hrun _ _ _).andThen fun place cx =>
      guarding_upheld (describe_upheld hrun entity label body) _ cx
  · exact describe_upheld hrun entity label body cx

theorem schedule_upheld (entity : Entity) (label : Label) (body : Prog Unit) (cx : Context) :
    (w.schedule run entity label body cx).Upheld (w.schedule run' entity label body cx) := by
  unfold schedule
  simp only
  split
  · exact .refl _
  · exact (populate_upheld hrun _ _ _ _).recover _ _ _

theorem settle_upheld (slot : Slot) (body : Entity → Label → Prog Unit) (entity : Entity)
    (cx : Context) :
    (w.settle run slot body entity cx).Upheld (w.settle run' slot body entity cx) := by
  unfold settle
  split
  · exact .refl _
  · simp only
    split
    · exact (schedule_upheld hrun _ _ _ _).andThen fun _ _ => .refl _
    · exact .refl _

theorem build_upheld (slot : Slot) (factory : Prog Entity) (body : Entity → Label → Prog Unit)
    (cx : Context) :
    (w.build run slot factory body cx).Upheld (w.build run' slot factory body cx) :=
  ((hrun _ _ _).andThen (settle_upheld hrun slot body)).after _

theorem resume_upheld (a : Pending) (cx : Context) :
    (w.resume run a cx).Upheld (w.resume run' a cx) := by
  unfold resume
  split
  · next guard body _ =>
    have haction (cx : Context) : (run Unit body (cx.log (.began a.number))).Upheld
        (run' Unit body (cx.log (.began a.number))) := hrun _ _ _
    refine Reply.Upheld.recover ?_ _ _ _
    cases guard with
    | none => exact haction cx
    | some key => exact guarding_upheld haction key cx
  · exact (populate_upheld hrun _ _ _ _).recover _ _ _

end

theorem obtain?_upheld (hdeeper : Option.Rel Upholds deeper deeper') (slot : Slot)
    (factory : Prog Entity) (body : Entity → Label → Prog Unit) (cx : Context) :
    (w.obtain? deeper slot factory body cx).Upheld (w.obtain? deeper' slot factory body cx) := by
  unfold obtain?
  cases cx.known? slot with
  | some c => exact .refl _
  | none =>
    cases hdeeper with
    | none => exact .refl _
    | some hrun => exact (build_upheld hrun _ _ _ _).andThen fun _ _ => .refl _

/-- A program comes to the same, if what it nests and what it drains do. -/
theorem eval_upheld (hdeeper : Option.Rel Upholds deeper deeper')
    (hdrain : ∀ cx, (drain cx).Upheld (drain' cx)) (p : Prog α) (cx : Context) :
    (w.eval deeper drain p cx).Upheld (w.eval deeper' drain' p cx) := by
  induction p generalizing cx with
  | pure | fail => exact .refl _
  | fresh _ ih | define _ _ ih | assemblyFile _ _ ih | openGenerics _ _ ih | snapshot _ ih =>
    exact ih _ _
  | emit _ _ ih | send _ _ ih | missingType _ _ ih | setAssemblyFile _ _ _ ih | note _ _ ih =>
    exact ih _
  | later _ _ _ ih => exact ih _
  | modelError symbol text k ih =>
    unfold eval
    split
    · exact ih _
    · exact .refl _
  | guarded key body k ihb ih => exact (guarding_upheld ihb key cx).andThen fun _ cx => ih cx
  | attempt node symbol body k ihb ih => exact ((ihb cx).recover _ _ _).andThen fun _ cx => ih cx
  | «catch» body k ihb ih =>
    unfold eval
    rcases ihb cx with h | h
    · generalize w.eval deeper drain body cx = r at h
      obtain ⟨o, cx₁⟩ := r
      obtain rfl : o = .exhausted := h
      exact .inl rfl
    · rw [h]
      split
      · exact ih _ _
      · exact ih _ _
      · exact .refl _
  | drain k ih => exact (hdrain cx).andThen fun _ cx => ih cx
  | create slot factory body k _ _ ih =>
    exact (obtain?_upheld hdeeper slot factory body cx).andThen fun c cx => ih c cx
  | summon recipe k ih => exact (obtain?_upheld hdeeper _ _ _ cx).andThen fun c cx => ih c cx

/-- Runs uphold each other at every depth, if what they drain their queues with does. -/
theorem runWithin_upheld {drain drain' : Nat → Context → Reply Unit}
    (hdrain : ∀ room cx, (drain room cx).Upheld (drain' room cx)) (room : Nat) :
    Upholds (fun α p cx => w.runWithin drain room α p cx)
      fun α p cx => w.runWithin drain' room α p cx := by
  induction room with
  | zero => exact fun _ p cx => eval_upheld .none (hdrain 0) p cx
  | succ room ih => exact fun _ p cx => eval_upheld (.some ih) (hdrain (room + 1)) p cx

/-- Draining with more turns than are needed comes to the same. -/
theorem drainWithin_upheld {budget budget' : Nat} (hb : budget ≤ budget') (room : Nat)
    (cx : Context) : (w.drainWithin budget room cx).Upheld (w.drainWithin budget' room cx) := by
  induction budget generalizing budget' room cx with
  | zero =>
    cases hq : cx.queue with
    | nil => exact .inr (by cases budget' <;> simp [drainWithin, hq])
    | cons a rest => exact .inl (by simp [drainWithin, hq])
  | succ budget ih =>
    obtain ⟨budget', rfl⟩ := Nat.exists_eq_succ_of_ne_zero (Nat.ne_zero_of_lt hb)
    have hless : budget ≤ budget' := Nat.le_of_succ_le_succ hb
    unfold drainWithin
    split
    · exact .refl _
    · exact (resume_upheld (runWithin_upheld (ih hless) room) _ _).andThen fun _ cx =>
        ih hless room cx

/-- A run within a larger budget comes to the same, unless the smaller one runs out. -/
theorem run_upheld {budget budget' : Nat} (hb : budget ≤ budget') (p : Prog α) (cx : Context) :
    (w.run budget p cx).Upheld (w.run budget' p cx) :=
  runWithin_upheld (drainWithin_upheld hb) _ _ p cx

end World

end TrapFacts
