import TrapFacts.Proofs.Unit.Roots

/-! Every unit goes a trail, and drains its queue unless a failure is fatal. -/

namespace TrapFacts

variable {u : ScopedUnit} {n : Nat} {cx cx' : Context} {deeper : Option Runner}

namespace ScopedUnit

theorem Finished.congr {cx₁ : Context} {en : Entity} (h : u.Finished en cx cx')
    (hg : cx₁.generics = cx.generics) : u.Finished en cx₁ cx' := by
  cases en with
  | method f =>
    change ∀ s, _ → _ → _ ∧ (_ ∉ cx₁.generics → _)
    rw [hg]
    exact h
  | _ => exact h

variable (hc : u.Closed)

include hc

theorem Nesting.runnerFollows_eval (h : u.Nesting n deeper) (drain : Context → Reply Unit) :
    u.RunnerFollows n fun _ p cx => u.world.eval deeper drain p cx where
  entity recipe cx hw hr := (h.obtains recipe hw hr).andThen fun _ _ _ hc => .of_done hc
  factory recipe cx hw hr := factory_obeys hc hw n deeper drain h hr
  opens en l cx hr hs hp := by
    obtain ⟨slot, hcreated⟩ := hs.introduced
    obtain ⟨recipe, _, hw, hy⟩ := hr.founded.created _ _ _ hcreated
    obtain ⟨relation, args, p, heq, hrel, hargs, hconcludes⟩ := facts_describes hc hw hy l
    let opened := (cx.populating en l).write (.tuple ⟨relation, .label l :: args⟩)
    have ho : Opening en l (cx.populating en l) opened := ⟨relation, args, hrel, hargs, rfl⟩
    have hframe : Frame cx opened := (Frame.populating _ _ _).trans (.deed (.emit _ _))
    have hready : u.Ready n opened := {
      room := hr.room
      labelled := hr.labelled.describe hs.proper ho
      founded := (hr.founded.event (cx.events_populating en l) rfl (by simp)).write _ }
    have hdescribing : u.Describing en l opened :=
      ⟨hs.mono hframe.events, hp.mono hframe, by simp [opened]⟩
    have hgoes := hconcludes opened hdescribing (recipe.lasting_yields _ _ hy hframe.events)
      n deeper drain h hready
    rw [heq]
    refine ⟨⟨opened, ⟨ho, hp.mono (.populating _ _ _)⟩, hgoes.trail⟩, fun hstops => ?_⟩
    rcases World.describe_closes hstops hgoes with (hfinished | herr) | herr
    · exact .inl (hfinished.congr rfl)
    · exact .inr herr
    · exact .inr herr

/-- Who runs what a program nests, with room for so many levels. -/
theorem nesting_runWithin (drain : Nat → Context → Reply Unit) (n : Nat) :
    ∃ deeper, u.Nesting n deeper ∧ ∀ α p cx,
      u.world.runWithin drain n α p cx = u.world.eval deeper (drain n) p cx := by
  induction n with
  | zero => exact ⟨none, ⟨by simp, by simp⟩, fun _ _ _ => rfl⟩
  | succ n ih =>
    obtain ⟨deeper, hfoot, heval⟩ := ih
    refine ⟨some _, ⟨by simp, ?_⟩, fun _ _ _ => rfl⟩
    rintro run ⟨⟩
    simpa only [heval, Nat.add_sub_cancel] using hfoot.runnerFollows_eval hc (drain n)

/-- Programs of a unit keep to their manner at every depth. -/
theorem runnerFollows_runWithin (drain : Nat → Context → Reply Unit) (n : Nat) :
    u.RunnerFollows n fun α p cx => u.world.runWithin drain n α p cx := by
  obtain ⟨deeper, hfoot, heval⟩ := nesting_runWithin hc drain n
  simpa only [heval] using hfoot.runnerFollows_eval hc (drain n)

/-- Draining leaves nothing in the queue, unless a failure is fatal. -/
theorem drainWithin_goes (budget : Nat) (hr : u.Ready n cx) (hg : cx.guards = []) :
    Goes u.world u.manner cx (u.world.drainWithin budget n cx)
      (fun _ cx' => cx'.queue = []) (fun _ => False) := by
  induction budget generalizing cx with
  | zero =>
    unfold World.drainWithin
    split
    · next hq => exact .of_done hq
    · exact ⟨.stop [] (.refl cx), by rintro _ ⟨⟩, by rintro _ ⟨⟩⟩
  | succ budget ih =>
    unfold World.drainWithin
    split
    · next hq => exact .of_done hq
    · next a rest hq =>
      obtain ⟨en, l, hw, hp⟩ := hr.labelled.queue a (hq ▸ List.mem_cons_self)
      let began := (cx.take a rest).log (.began a.number)
      have hbegan : u.Ready n began := {
        room := hr.room
        labelled := (hr.labelled.take hq).log rfl (by simp)
        founded := (hr.founded.take hq).1.log (by simp) }
      have hsubject : u.Subject en l began := by
        refine ⟨hp.mono (by simp [began]), ?_⟩
        have hdue := (hr.founded.take hq).2 (en, l) (by simp [hw, Work.dues])
        exact hdue.mono (Frame.log _ _).events
      have hrun := runnerFollows_runWithin hc (fun room cx => u.world.drainWithin budget room cx) n
      have hresume := World.resume_goes hq
        (fun key body hprogram => by rw [hw] at hprogram; cases hprogram)
        (fun guard body hprogram => by rw [hw] at hprogram; cases hprogram)
        (fun en' l' body hpopulation => by
          rw [hw] at hpopulation
          cases hpopulation
          exact hrun.tries hbegan hsubject hg)
      exact hresume.andThen fun _ cx₁ ht _ => ih (hr.along ht) (ht.frame.guards.trans hg)

/-- A unit goes a trail. If the unit exists and no failure is fatal, its root is reached and its
queue is empty in the end. -/
theorem runIn_goes (x : Extractor) (budget : Nat) :
    Goes u.world u.manner { extractor := x } (u.unit.runIn u.model u.scope x budget)
      (fun _ cx => cx.queue = [] ∧ u.Rooted cx) (fun _ => ¬ u.unit.Exists u.model) := by
  let fresh : Context := { extractor := x }
  let drain := fun room cx => u.world.drainWithin budget room cx
  obtain ⟨deeper, hfoot, heval⟩ := nesting_runWithin hc drain fresh.room
  have hrun : u.unit.runIn u.model u.scope x budget = (u.world.eval deeper (drain fresh.room)
      (u.unit.root u.model u.scope) fresh).andThen fun _ cx => (drain fresh.room cx).andThen
        fun _ cx => ⟨.done (), cx⟩ := by
    change u.world.runWithin drain fresh.room Unit (u.unit.program u.model u.scope) fresh = _
    rw [heval]
    exact World.eval_bind deeper _ (u.unit.root u.model u.scope) _ fresh
  have hready : u.Ready fresh.room fresh :=
    ⟨rfl, labelled_fresh u.model u.scope x, u.founded_fresh x⟩
  rw [hrun]
  refine (root_obeys hc _ _ _ hfoot hready).andThen fun _ cx₁ ht hroot => ?_
  have hdrain := drainWithin_goes hc budget (hready.along ht) ht.frame.guards
  refine (hdrain.mono (fun _ _ hq => hq) (by simp)).andThen fun _ cx₂ ht₂ hq => .of_done ⟨hq, ?_⟩
  exact u.lasting_rooted hroot ht₂.frame.events

end ScopedUnit

/-- Unless a failure is fatal, nothing waits when a unit that exists ends. -/
theorem runIn_goes (unit : TrapUnit) (m : Model) (scope : Scope) (x : Extractor) (budget : Nat) :
    Goes (.ofModel m scope) (.ofModel m scope) { extractor := x } (unit.runIn m scope x budget)
      (fun _ cx => cx.queue = []) (fun _ => ¬ unit.Exists m) := by
  let u : ScopedUnit := ⟨m, scope, unit, fun _ => True⟩
  have hgoes := u.runIn_goes (closed_univ m scope unit) x budget
  exact ⟨hgoes.trail.coarse, fun a ha => (hgoes.result a ha).1, hgoes.failure⟩

namespace TrapUnit

variable {m : Model} {scope : Scope} {x : Extractor} {unit : TrapUnit} {budget : Nat}

/-- After a run, nothing happens but that its end may be reported. -/
theorem conclude_keeps {P : Context → Prop} (m : Model) (name : String) {r : Reply Unit}
    (h : P r.context) (hs : ∀ cx message, P cx → P (cx.send message none)) :
    P (conclude m name r).2 := by
  obtain ⟨o, cx⟩ := r
  cases o with
  | done | exhausted => exact h
  | failed e =>
    cases he : e.isFatal with
    | true =>
      simp only [conclude, he, if_true]
      exact hs _ _ h
    | false =>
      simp only [conclude, he]
      exact hs _ _ h

theorem conclude_done {name : String} {r : Reply Unit} (h : r.outcome = .done ()) :
    conclude m name r = (.extracted, r.context) := by
  obtain ⟨o, cx⟩ := r
  obtain rfl := h
  rfl

/-- A unit that was extracted came to the end of its program, or its root failed by itself. -/
theorem runIn_of_extracted (hend : unit.finish m scope x budget = (.extracted, cx)) :
    unit.runIn m scope x budget = ⟨.done (), cx⟩ ∨
      ∃ e before, unit.runIn m scope x budget = ⟨.failed e, before⟩ ∧ e.isFatal = false ∧
        cx = before.send (m.failureMessage e none none) none := by
  unfold finish at hend
  generalize unit.runIn m scope x budget = r at hend ⊢
  obtain ⟨o, before⟩ := r
  cases o with
  | done =>
    cases hend
    exact .inl rfl
  | exhausted => cases hend
  | failed e =>
    cases he : e.isFatal with
    | true => simp [conclude, he] at hend
    | false =>
      simp only [conclude, he] at hend
      cases hend
      exact .inr ⟨e, before, rfl, he, rfl⟩

/-- A unit that runs out of turns finishes where its run stopped. -/
theorem finish_of_exhausted (h : (unit.runIn m scope x budget).outcome = .exhausted) :
    (unit.finish m scope x budget).2 = (unit.runIn m scope x budget).context := by
  unfold finish
  generalize unit.runIn m scope x budget = r at h ⊢
  obtain ⟨o, cx⟩ := r
  cases h
  rfl

end TrapUnit

end TrapFacts
