import TrapFacts.Proofs.Engine.Reply

/-! Every run of every program goes a trail. -/

namespace TrapFacts

variable {α : Type} {w : World} {cx : Context} {n : Nat}

/-- A way to run programs that leads along trails, with room for so many nested creations. -/
structure FreeRunner (w : World) (n : Nat) (run : Runner) : Prop where
  trail : ∀ {α : Type} (p : Prog α) (cx : Context), cx.room = n →
    Trail w .free [] (run α p cx).outcome.stops cx (run α p cx).context
  entity : ∀ (recipe : Recipe) (cx : Context), cx.room = n →
    Goes w .free cx (run Created (.entity recipe) cx)
      (fun c cx' => Event.served (w.catalog recipe).slot c ∈ cx'.events) (fun _ => True)

theorem room_enter {slot : Slot} (h : cx.room = n + 1) : (cx.enter slot).room = n := by
  simp only [Context.room, Context.maxDepth, Context.enter, Context.log] at h ⊢
  omega

namespace FreeRunner

variable {run : Runner} (h : FreeRunner w n run)

include h

theorem opens (en : Entity) (l : Label) (body : Prog Unit) (hcx : cx.room = n) :
    World.Opens w .free run en l body cx :=
  ⟨⟨_, rfl, h.trail _ _ hcx⟩, fun _ => trivial⟩

theorem places (en : Entity) (hcx : cx.room = n) : World.Places w .free run en cx :=
  (h.entity _ cx hcx).mono (fun _ _ hs => ⟨hs, fun _ => ⟨trivial, trivial⟩⟩) fun _ _ _ => trivial

theorem describable (en : Entity) (l : Label) (body : Prog Unit) :
    World.Describable w .free run en l body fun cx => cx.room = n where
  trail hcx ht := ht.frame.room.trans hcx
  free _ := trivial
  places hcx := h.places en hcx
  plain _ hcx := h.opens en l body hcx
  guarded _ _ hcx _ := h.opens en l body hcx

theorem makes (slot : Slot) (factory : Prog Entity) (body : Entity → Label → Prog Unit)
    (hcx : cx.room = n + 1) :
    World.Makes w .free run slot factory body (fun _ _ => True) (fun _ => True) cx := by
  have hroom : (cx.enter slot).room = n := room_enter hcx
  refine ⟨goes_of_trail (h.trail factory _ hroom), fun en cx₁ ht _ hs => ⟨trivial, fun _ => ?_⟩⟩
  refine World.schedule_spends (h.describable en _ _) (fun _ => ?_) trivial
  rw [(Frame.introduce hs).room, ht.frame.room, hroom]

end FreeRunner

variable {deeper : Option Runner} {drain : Context → Reply Unit}

theorem obtain?_free (hsome : deeper.isSome ↔ 0 < n)
    (hrun : ∀ run, deeper = some run → FreeRunner w (n - 1) run)
    (slot : Slot) (factory : Prog Entity) (body : Entity → Label → Prog Unit) (hcx : cx.room = n) :
    Goes w .free cx (w.obtain? deeper slot factory body cx)
      (fun c cx' => Event.served slot c ∈ cx'.events) (fun _ => True) := by
  have hmakes : ∀ run, deeper = some run → cx.known? slot = none →
      World.Makes w .free run slot factory body (fun _ _ => True) (fun _ => True) cx := by
    intro run hr _
    have hn : 0 < n := hsome.1 (by simp [hr])
    exact (hrun run hr).makes slot factory body (by omega)
  exact (World.obtain?_goes (fun _ _ _ _ _ => trivial) (hcx ▸ hsome) hmakes).mono
    (fun _ _ hs => hs.1) fun _ hf => hf

/-- One step of any program leaves a trail. -/
theorem eval_free (hsome : deeper.isSome ↔ 0 < n)
    (hrun : ∀ run, deeper = some run → FreeRunner w (n - 1) run)
    (hdrain : ∀ cx, cx.room = n → Trail w .free [] (drain cx).outcome.stops cx (drain cx).context)
    (p : Prog α) (hcx : cx.room = n) :
    Goes w .free cx (w.eval deeper drain p cx) (fun _ _ => True) (fun _ => True) := by
  induction p generalizing cx with
  | pure a => exact .of_done trivial
  | fail e => exact .of_failed fun _ => trivial
  | fresh k ih => exact .after (.deed (.fresh cx)) (ih _ hcx)
  | define key k ih => exact .after (.deed (.define cx key)) (ih _ hcx)
  | emit t k ih => exact .after (.deed (.emit cx t)) (ih hcx)
  | send message k ih => exact .after (.sent cx message) (ih hcx)
  | modelError symbol text k ih =>
    unfold World.eval
    split
    · exact ih hcx
    · exact .of_failed fun _ => trivial
  | missingType name k ih => exact .after (.deed (.missingType cx name)) (ih hcx)
  | setAssemblyFile name file k ih => exact .after (.deed (.setAssemblyFile cx name file)) (ih hcx)
  | assemblyFile name k ih => exact ih _ hcx
  | openGenerics label k ih => exact .after (.deed (.openGenerics cx label)) (ih _ hcx)
  | snapshot k ih => exact ih _ hcx
  | note remark k ih => exact .after (.deed (.note cx remark)) (ih hcx)
  | guarded key body k ihb ihk =>
    let r := w.guarding key (w.eval deeper drain body) cx
    have hb : Trail w .free [] r.outcome.stops cx r.context := by
      refine World.guarding_trail trivial fun cx' hcx' => (ihb ?_).trail
      rcases hcx' with rfl | rfl <;> exact hcx
    exact (goes_of_trail hb).andThen fun _ _ ht _ => ihk (ht.frame.room.trans hcx)
  | attempt node symbol body k ihb ihk =>
    have hb := World.recover_goes node symbol (ihb hcx)
    exact (hb.mono (fun _ _ _ => trivial) fun _ _ => trivial).andThen fun _ _ ht _ =>
      ihk (ht.frame.room.trans hcx)
  | «catch» body k ihb ihk =>
    have hb := ihb hcx
    unfold World.eval
    generalize w.eval deeper drain body cx = r at hb
    obtain ⟨o, cx₁⟩ := r
    have hroom : cx₁.room = n := hb.trail.frame.room.trans hcx
    cases o with
    | done b => exact .after hb.trail (ihk _ hroom)
    | exhausted => exact goes_of_trail hb.trail
    | failed e =>
      cases he : e.isFatal with
      | true => exact .after (.caught trivial (he ▸ hb.trail)) (ihk _ hroom)
      | false => exact .after (he ▸ hb.trail) (ihk _ hroom)
  | later body k ihb ihk => exact .after (.deed (.later cx body)) (ihk hcx)
  | drain k ih =>
    exact (goes_of_trail (hdrain cx hcx)).andThen fun _ _ ht _ => ih (ht.frame.room.trans hcx)
  | create slot factory body k _ _ ihk =>
    exact (goes_of_trail (obtain?_free hsome hrun slot factory body hcx).trail).andThen
      fun c _ ht _ => ihk c (ht.frame.room.trans hcx)
  | summon recipe k ih =>
    exact (obtain?_free hsome hrun _ _ _ hcx).andThen fun c _ ht _ =>
      ih c (ht.frame.room.trans hcx)

theorem eval_freeRunner (hsome : deeper.isSome ↔ 0 < n)
    (hrun : ∀ run, deeper = some run → FreeRunner w (n - 1) run)
    (hdrain : ∀ cx, cx.room = n →
      Trail w .free [] (drain cx).outcome.stops cx (drain cx).context) :
    FreeRunner w n fun _ p cx => w.eval deeper drain p cx where
  trail p _ hcx := (eval_free hsome hrun hdrain p hcx).trail
  entity recipe cx hcx := by
    refine (obtain?_free hsome hrun _ _ _ hcx).andThen fun c cx₁ _ hc => ?_
    exact .of_done hc

def FreeDrain (w : World) (drain : Nat → Context → Reply Unit) : Prop :=
  ∀ n cx, cx.room = n → Trail w .free [] (drain n cx).outcome.stops cx (drain n cx).context

/-- Any program leaves a trail, at every depth. -/
theorem runWithin_free {drain : Nat → Context → Reply Unit} (hdrain : FreeDrain w drain) (n : Nat) :
    FreeRunner w n fun α p cx => w.runWithin drain n α p cx := by
  induction n with
  | zero => exact eval_freeRunner (by simp) (by simp) (hdrain 0)
  | succ n ih => exact eval_freeRunner (by simp) (by simpa using ih) (hdrain (n + 1))

/-- Draining the queue leaves a trail. -/
theorem drainWithin_free (budget : Nat) : FreeDrain w (w.drainWithin budget) := by
  induction budget with
  | zero =>
    intro n cx _
    unfold World.drainWithin
    split
    · exact .refl cx
    · exact .stop [] (.refl cx)
  | succ budget ih =>
    intro n cx hcx
    have hrun := runWithin_free ih n
    unfold World.drainWithin
    split
    · exact .refl cx
    · next a rest hq =>
      have hr := World.resume_goes hq (fun _ _ _ => trivial)
        (fun _ body _ cx' hcx' => goes_of_trail (hrun.trail body cx' (hcx'.trans hcx)))
        fun en l body _ => World.populate_tries (hrun.describable en l body) hcx
      exact ((goes_of_trail hr.trail).andThen fun _ cx₁ ht _ =>
        goes_of_trail (ih n cx₁ (ht.frame.room.trans hcx))).trail

/-- A whole run leaves a trail. What is claimed about trails holds for every run. -/
theorem run_free (budget : Nat) (p : Prog α) (cx : Context) :
    Trail w .free [] (w.run budget p cx).outcome.stops cx (w.run budget p cx).context :=
  (runWithin_free (drainWithin_free budget) cx.room).trail p cx rfl

end TrapFacts
