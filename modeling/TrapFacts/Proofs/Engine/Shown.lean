import TrapFacts.Proofs.Engine.RunnerShows

/-! Every entity that a run makes is shown when the run is over. -/

namespace TrapFacts

variable {w : World} {desc : Entity → Label → Prog Unit} {P : DescriptionSpec} {cx cx' : Context}
  {en : Entity} {l : Label} {run : Runner}

/-- Every entity so far is shown or waits, and what waits are descriptions of different ones. -/
structure Shown (desc : Entity → Label → Prog Unit) (P : DescriptionSpec) (cx : Context) :
    Prop where
  factsBehind : cx.FactsBehind
  made : ∀ slot en l, .created slot ⟨l, en⟩ ∈ cx.events → l.number ≤ cx.labels ∧ P.Sure en l cx
  waiting : Joined desc 0 cx cx.queue

theorem shown_fresh (x : Extractor) : Shown desc P { extractor := x } where
  factsBehind _ _ := rfl
  made := by simp [Context.events, Context.moments]
  waiting := .nil

namespace Shown

theorem adds (h : Shown desc P cx) (ha : Adds desc P (fun _ => False) false cx cx') :
    Shown desc P cx' := by
  obtain ⟨more, hq, hj⟩ := ha.queue
  refine ⟨ha.factsBehind, fun slot en l hc => ?_, ?_⟩
  · rcases ha.made rfl slot en l hc with hc | ⟨-, hhigh, hsure⟩
    · obtain ⟨hl, hsure⟩ := h.made slot en l hc
      exact ⟨Nat.le_trans hl ha.labels, hsure.along ha.events (ha.kept l hl not_false) hq⟩
    · exact ⟨hhigh, hsure⟩
  · rw [hq]
    exact h.waiting.append hj (Nat.zero_le _) ha.labels fun d _ _ hl => ha.kept d.2 hl not_false

/-- The first description that waits is over. -/
theorem attended {a : Pending} {rest : List Pending} (h : Shown desc P cx) (hsound : Sound [] cx)
    (hq : cx.queue = a :: rest) (hwork : a.work = .population en l (desc en l))
    (ha : Adds desc P (· = l) false ((cx.take a rest).log (.began a.number)) cx')
    (hshows : P.shows en l cx') : Shown desc P cx' := by
  let cx₀ := (cx.take a rest).log (.began a.number)
  have hfacts : ∀ l', cx₀.factsAbout l' = cx.factsAbout l' := fun l' =>
    (Context.factsAbout_quiet (Context.events_log _ _) rfl l').trans
      (Context.factsAbout_quiet (cx.events_take a rest) rfl l')
  have hdistinct := h.waiting.distinct
  rw [hq, List.flatMap_cons, hwork, Work.dues, List.singleton_append, List.map_cons,
    List.nodup_cons] at hdistinct
  have hcreated : ∃ slot, .created slot ⟨l, en⟩ ∈ cx.events := by
    refine hsound.accounted.created (en, l) (List.mem_append_left _ ?_)
    simp [Context.dues, hq, hwork, Work.dues]
  obtain ⟨more, hq', hj⟩ := ha.queue
  refine ⟨ha.factsBehind, fun slot en' l' hc => ?_, ?_⟩
  · rcases ha.made rfl slot en' l' hc with hc | ⟨-, hhigh, hsure⟩
    · have hc : .created slot ⟨l', en'⟩ ∈ cx.events := by simpa using hc
      obtain ⟨hl', hsure⟩ := h.made slot en' l' hc
      refine ⟨Nat.le_trans hl' ha.labels, ?_⟩
      by_cases heq : l' = l
      · subst heq
        obtain ⟨slot', hc'⟩ := hcreated
        obtain ⟨-, hsame⟩ := hsound.orderly.created_unique hc hc' rfl
        obtain rfl : en' = en := congrArg Created.entity hsame
        exact .inl hshows
      · have hkept := ha.kept l' hl' heq
        rcases hsure with hshown | ⟨hdue, hnone⟩
        · refine .inl (P.lasting hshown ?_ (hkept.trans (hfacts l')))
          exact ((Frame.take cx a rest).trans (Frame.log _ _)).events.trans ha.events
        · refine .inr ⟨?_, hkept.trans ((hfacts l').trans hnone)⟩
          rw [Context.dues, hq, List.flatMap_cons, hwork, Work.dues, List.mem_append,
            List.mem_singleton] at hdue
          rw [Context.dues, hq', List.flatMap_append]
          refine List.mem_append_left _ (hdue.resolve_left ?_)
          rintro ⟨⟩
          exact heq rfl
    · exact ⟨hhigh, hsure⟩
  · have hrest : Joined desc 0 cx₀ rest := by
      refine ⟨fun a' ha' => ?_, hdistinct.2⟩
      obtain ⟨en', l', hw, hlow, hhigh, hnone⟩ :=
        h.waiting.work a' (hq ▸ List.mem_cons_of_mem a ha')
      exact ⟨en', l', hw, hlow, hhigh, (hfacts l').trans hnone⟩
    rw [hq']
    refine hrest.append hj (Nat.zero_le _) ha.labels fun d hd _ hl => ha.kept d.2 hl ?_
    intro hl
    have hmem : d.2 ∈ (rest.flatMap (·.work.dues)).map Prod.snd := List.mem_map_of_mem hd
    exact hdistinct.1 (hl ▸ hmem)

end Shown

namespace World

variable (hw : w.MeetsSpec desc P)

include hw

/-- The first description that waits is taken up. -/
theorem resume_shown {a : Pending} {rest : List Pending} (hrun : RunnerShows w desc P run)
    (hsound : Sound [] cx) (h : Shown desc P cx) (hq : cx.queue = a :: rest)
    (hstops : (w.resume run a (cx.take a rest)).outcome.stops = false) :
    Shown desc P (w.resume run a (cx.take a rest)).context := by
  let cx₀ := (cx.take a rest).log (.began a.number)
  have hfacts : ∀ l', cx₀.factsAbout l' = cx.factsAbout l' := fun l' =>
    (Context.factsAbout_quiet (Context.events_log _ _) rfl l').trans
      (Context.factsAbout_quiet (cx.events_take a rest) rfl l')
  have hbehind : cx₀.FactsBehind := fun l' hl' => (hfacts l').trans (h.factsBehind l' hl')
  obtain ⟨en, l, hwork, -, hl, hnone⟩ := h.waiting.work a (by simp [hq])
  have hresume : w.resume run a (cx.take a rest) = w.attend run en l (desc en l) cx₀ := by
    unfold resume
    rw [hwork]
    rfl
  rw [hresume] at hstops ⊢
  have hadds : (w.attend run en l (desc en l) cx₀).Adds desc P (· = l) cx₀ :=
    attend_adds hw.toStatesOwn hrun hbehind hl
  rw [Reply.Adds, hstops] at hadds
  exact h.attended hsound hq hwork hadds (hrun.shows hbehind hl ((hfacts l).trans hnone) hstops)

/-- When the queue is drained, all that waited for a description has it. -/
theorem drainWithin_shown (budget : Nat) {room : Nat} (hroom : cx.room = room)
    (hsound : Sound [] cx) (h : Shown desc P cx)
    (hstops : (w.drainWithin budget room cx).outcome.stops = false) :
    Shown desc P (w.drainWithin budget room cx).context := by
  induction budget generalizing cx with
  | zero =>
    unfold drainWithin at hstops ⊢
    split at hstops
    · exact h
    · cases hstops
  | succ budget ih =>
    unfold drainWithin at hstops ⊢
    split at hstops
    · exact h
    · next a rest hq =>
      let run : Runner := fun α p cx =>
        w.runWithin (fun room cx => w.drainWithin budget room cx) room α p cx
      have hfree : FreeRunner w room run := runWithin_free (drainWithin_free budget) room
      have htrail := (World.resume_goes hq (fun _ _ _ => trivial)
        (fun _ body _ cx' hcx' => goes_of_trail (hfree.trail body cx' (hcx'.trans hroom)))
        fun en l body _ => World.populate_tries (hfree.describable en l body) hroom).trail
      have hrun : RunnerShows w desc P run := runWithin_runnerShows hw _ room
      have hshown := resume_shown hw hrun hsound h hq
      dsimp only at hstops ⊢
      change ((w.resume run a (cx.take a rest)).andThen _).outcome.stops = false at hstops
      change Shown desc P ((w.resume run a (cx.take a rest)).andThen _).context
      generalize w.resume run a (cx.take a rest) = r at hstops hshown htrail
      obtain ⟨o, cx₁⟩ := r
      cases o with
      | done => exact ih (htrail.frame.room.trans hroom) (htrail.sound hsound) (hshown rfl) hstops
      | failed e => exact hshown hstops
      | exhausted => cases hstops

/-- When a run is over, and all that it queued, every entity is shown or waits. -/
theorem run_shown {p : Prog Unit} (hp : p.Factless) (x : Extractor) (budget : Nat)
    (hstops : (w.run budget (p.bind fun _ => .drain (.pure ()))
      { extractor := x }).outcome.stops = false) :
    Shown desc P (w.run budget (p.bind fun _ => .drain (.pure ())) { extractor := x }).context := by
  let fresh : Context := { extractor := x }
  let drain := fun room cx => w.drainWithin budget room cx
  have hfree : FreeRunner w fresh.room fun α p cx => w.runWithin drain fresh.room α p cx :=
    runWithin_free (drainWithin_free budget) fresh.room
  have htrail := hfree.trail p fresh rfl
  have hfresh : Shown desc P fresh := shown_fresh x
  have hadds := (runWithin_runnerShows hw drain fresh.room).adds hp hfresh.factsBehind (by simp)
  rw [run_drain] at hstops ⊢
  change ((w.runWithin drain fresh.room Unit p fresh).andThen _).outcome.stops = false at hstops
  change Shown desc P ((w.runWithin drain fresh.room Unit p fresh).andThen _).context
  generalize w.runWithin drain fresh.room Unit p fresh = r at hstops htrail hadds
  obtain ⟨o, cx₁⟩ := r
  cases o with
  | exhausted => cases hstops
  | failed e =>
    have hadds : Adds desc P (fun _ => False) e.isFatal fresh cx₁ := hadds
    rw [show e.isFatal = false from hstops] at hadds
    exact (shown_fresh x).adds hadds
  | done =>
    change ((drain fresh.room cx₁).andThen _).outcome.stops = false at hstops
    change Shown desc P ((drain fresh.room cx₁).andThen _).context
    have hshown := drainWithin_shown hw budget htrail.frame.room
      (htrail.sound ⟨orderly_fresh x, accounted_fresh x⟩) ((shown_fresh x).adds hadds)
    change (drain fresh.room cx₁).outcome.stops = false →
      Shown desc P (drain fresh.room cx₁).context at hshown
    generalize drain fresh.room cx₁ = r at hstops hshown
    obtain ⟨o, cx₂⟩ := r
    cases o with
    | done => exact hshown rfl
    | failed e => exact hshown hstops
    | exhausted => cases hstops

end World

end TrapFacts
