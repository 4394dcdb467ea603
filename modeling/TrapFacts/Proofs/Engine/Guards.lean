import TrapFacts.Proofs.Engine.Run

/-! Guards are closed in the order in which they were opened, however a run ends. -/

namespace TrapFacts

variable {α : Type} {w : World} {m : Manner} {o : List Due} {b : Bool} {cx cx₁ cx' : Context}
  {limit : Nat} {guards : List Key}

def Record.isGuard : Record → Bool
  | .push _ => true
  | .pop => true
  | _ => false

/-- The guards that records leave open, the innermost first, if others are open before. -/
def openKeys (guards : List Key) : List Record → List Key
  | [] => guards
  | .push key :: rest => openKeys (key :: guards) rest
  | .pop :: rest => openKeys guards.tail rest
  | _ :: rest => openKeys guards rest

/-- Records that close each guard they open, and no other. -/
inductive Balanced : List Record → Prop
  | empty : Balanced []
  | plain {r : Record} : r.isGuard = false → Balanced [r]
  | append {rs rs' : List Record} : Balanced rs → Balanced rs' → Balanced (rs ++ rs')
  | guarded (key : Key) {rs : List Record} : Balanced rs → Balanced (.push key :: (rs ++ [.pop]))

def Event.isGuard (e : Event) : Bool :=
  e.record?.any Record.isGuard

def written (ms : List Moment) : List Record :=
  ms.filterMap (·.event.record?)

/-- Moments at which the depth is within a limit, and the guards are those that the records leave
open. -/
def InStep (limit : Nat) (guards : List Key) : List Moment → Prop
  | [] => True
  | now :: later => now.depth ≤ limit ∧ now.guards = openKeys guards (written [now]) ∧
      InStep limit now.guards later

theorem openKeys_append (guards : List Key) (rs rs' : List Record) :
    openKeys guards (rs ++ rs') = openKeys (openKeys guards rs) rs' := by
  induction rs generalizing guards with
  | nil => rfl
  | cons r rs ih => cases r <;> exact ih _

theorem openKeys_plain {r : Record} (h : r.isGuard = false) : openKeys guards [r] = guards := by
  cases r <;> simp_all [Record.isGuard, openKeys]

/-- A balanced word leaves open what was open before. -/
theorem Balanced.openKeys_eq {rs : List Record} (h : Balanced rs) (guards : List Key) :
    openKeys guards rs = guards := by
  induction h generalizing guards with
  | empty => rfl
  | plain h => exact openKeys_plain h
  | append _ _ ih ih' => rw [openKeys_append, ih, ih']
  | @guarded key rs _ ih =>
    calc openKeys guards (.push key :: (rs ++ [.pop]))
        = openKeys (openKeys (key :: guards) rs) [.pop] := openKeys_append _ _ _
      _ = guards := by rw [ih]; rfl

theorem written_append (ms ms' : List Moment) : written (ms ++ ms') = written ms ++ written ms' :=
  List.filterMap_append

theorem written_cons (now : Moment) (ms : List Moment) :
    written (now :: ms) = written [now] ++ written ms :=
  written_append [now] ms

namespace Moment

/-- A moment at which no guard was opened or closed. -/
def Quiet (now : Moment) : Prop :=
  now.event.isGuard = false

variable {now : Moment}

theorem Quiet.written (h : now.Quiet) : Balanced (written [now]) := by
  obtain ⟨e, depth, open', pending, deferred⟩ := now
  cases e with
  | wrote r => exact .plain h
  | _ => exact .empty

end Moment

theorem Balanced.of_quiet {ms : List Moment} (h : ∀ now ∈ ms, now.Quiet) :
    Balanced (written ms) := by
  induction ms with
  | nil => exact .empty
  | cons now ms ih =>
    rw [written_cons]
    exact .append (h now (by simp)).written (ih fun now hn => h now (by simp [hn]))

namespace InStep

/-- Moments in step can be followed by moments that are in step with what those left open. -/
theorem append {ms ms' : List Moment} (h : InStep limit guards ms)
    (h' : InStep limit (openKeys guards (written ms)) ms') : InStep limit guards (ms ++ ms') := by
  induction ms generalizing guards with
  | nil => exact h'
  | cons now later ih =>
    obtain ⟨hd, hg, hl⟩ := h
    refine ⟨hd, hg, ih hl ?_⟩
    rwa [written_cons, openKeys_append, ← hg] at h'

theorem now {past : List Moment} {now : Moment} {later : List Moment}
    (h : InStep limit guards (past ++ now :: later)) :
    now.depth ≤ limit ∧ now.guards = openKeys guards (written (past ++ [now])) := by
  induction past generalizing guards with
  | nil => exact ⟨h.1, h.2.1⟩
  | cons first past ih =>
    obtain ⟨_, hg, hl⟩ := h
    obtain ⟨hd, hk⟩ := ih hl
    refine ⟨hd, ?_⟩
    rw [hk, hg, ← openKeys_append, ← written_append]
    rfl

end InStep

/-- What happened between two contexts left the guards in step with the trap. -/
structure Steady (w : World) (limit : Nat) (cx cx' : Context) (during : List Moment) : Prop where
  moments : cx'.moments = cx.moments ++ during
  balanced : Balanced (written during)
  inStep : InStep limit cx.guards during
  quiet : w.scope.isAssembly = true → ∀ now ∈ during, now.Quiet

namespace Steady

theorem refl (cx : Context) : Steady w limit cx cx [] :=
  ⟨by simp, .empty, trivial, by simp⟩

theorem trans {ms ms' : List Moment} (h : Steady w limit cx cx₁ ms)
    (h' : Steady w limit cx₁ cx' ms') (hg : cx₁.guards = cx.guards) :
    Steady w limit cx cx' (ms ++ ms') where
  moments := by rw [h'.moments, h.moments, List.append_assoc]
  balanced := by
    rw [written_append]
    exact .append h.balanced h'.balanced
  inStep := by
    refine h.inStep.append ?_
    rw [h.balanced.openKeys_eq, ← hg]
    exact h'.inStep
  quiet hs now hn := by
    rcases List.mem_append.1 hn with hn | hn
    · exact h.quiet hs now hn
    · exact h'.quiet hs now hn

theorem of_quiet {ms : List Moment} (hm : cx'.moments = cx.moments ++ ms)
    (h : ∀ now ∈ ms, now.depth ≤ limit ∧ now.guards = cx.guards ∧ now.Quiet) :
    Steady w limit cx cx' ms := by
  refine ⟨hm, .of_quiet fun now hn => (h now hn).2.2, ?_, fun _ now hn => (h now hn).2.2⟩
  clear hm
  induction ms with
  | nil => trivial
  | cons now ms ih =>
    obtain ⟨hd, hg, hq⟩ := h now (by simp)
    have hi := ih fun now hn => h now (by simp [hn])
    exact ⟨hd, by rw [hg, hq.written.openKeys_eq], hg ▸ hi⟩

theorem of_moment {now : Moment} (hm : cx'.moments = cx.moments ++ [now]) (hd : now.depth ≤ limit)
    (hg : now.guards = cx.guards) (hq : now.Quiet) : Steady w limit cx cx' [now] :=
  of_quiet hm (by simpa using ⟨hd, hg, hq⟩)

theorem after_moment {now : Moment} {ms : List Moment} (h : Steady w limit cx₁ cx' ms)
    (hm : cx₁.moments = cx.moments ++ [now]) (hd : now.depth ≤ limit)
    (hg : now.guards = cx.guards) (hq : now.Quiet) (hg₁ : cx₁.guards = cx.guards) :
    Steady w limit cx cx' (now :: ms) :=
  (of_moment hm hd hg hq).trans h hg₁

/-- A guard adds its two brackets around what happens under it. -/
theorem guarded {key : Key} {ms : List Moment} (h : Steady w limit (cx.openGuard key) cx' ms)
    (hf : Frame (cx.openGuard key) cx') (hs : w.scope.isAssembly = false) (hd : cx.depth ≤ limit) :
    let opened : Context := { cx with guards := key :: cx.guards }
    let closed : Context := { cx' with guards := cx'.guards.tail }
    Steady w limit cx cx'.closeGuard
      (opened.moment (.wrote (.push key)) :: (ms ++ [closed.moment (.wrote .pop)])) := by
  intro opened closed
  have hopen : (cx.openGuard key).moments = cx.moments ++ [opened.moment (.wrote (.push key))] :=
    opened.moments_write _
  have hclose : cx'.closeGuard.moments = cx'.moments ++ [closed.moment (.wrote .pop)] :=
    closed.moments_write _
  have hinner : openKeys (key :: cx.guards) (written ms) = key :: cx.guards :=
    h.balanced.openKeys_eq _
  have htail : cx'.guards.tail = cx.guards := by
    rw [hf.guards]
    rfl
  refine ⟨by simp [hclose, h.moments, hopen], ?_, ?_, by simp [hs]⟩
  · rw [written_cons, written_append]
    exact .guarded key h.balanced
  · refine ⟨hd, rfl, h.inStep.append ⟨?_, ?_, trivial⟩⟩
    · exact Nat.le_trans (Nat.le_of_eq hf.depth) hd
    · rw [show (cx.openGuard key).guards = key :: cx.guards from rfl, hinner]
      exact htail

theorem introduce {slot : Slot} {en : Entity} (hd : cx.depth ≤ limit) :
    ∃ during, Steady w limit cx (cx.introduce slot en).2 during := by
  refine ⟨_, of_quiet (cx.moments_introduce slot en) fun now hn => ?_⟩
  obtain ⟨e, he, rfl⟩ := List.mem_map.1 hn
  refine ⟨hd, rfl, ?_⟩
  simp only [List.mem_append, List.mem_cons, List.not_mem_nil, or_false] at he
  rcases he with hc | rfl | rfl
  · obtain ⟨message, rfl⟩ := cx.sent_of_mem_collision _ hc
    rfl
  · rfl
  · rfl

/-- A deed keeps the guards balanced and the depth in bounds. -/
theorem deed (h : Deed cx cx') (hd : cx.depth ≤ limit) :
    ∃ during, Steady w limit cx cx' during := by
  cases h with
  | setAssemblyFile | openGenerics => exact ⟨[], of_quiet (List.append_nil _).symm (by simp)⟩
  | _ =>
    refine ⟨_, of_quiet (Context.moments_log _ _) ?_⟩
    rintro _ hn
    rw [List.mem_singleton.1 hn]
    exact ⟨hd, rfl, rfl⟩

/-- Under an assembly's scope nothing touches the guards. -/
theorem clear {past later : List Moment} {now : Moment}
    (h : Steady w limit cx cx' (past ++ now :: later)) (hs : w.scope.isAssembly = true) :
    now.guards = cx.guards ∧ now.event.isGuard = false := by
  have hquiet : Balanced (written (past ++ [now])) := by
    refine .of_quiet fun mo hmo => h.quiet hs mo ?_
    rw [List.append_cons]
    exact List.mem_append_left _ hmo
  exact ⟨by rw [h.inStep.now.2, hquiet.openKeys_eq], h.quiet hs now (by simp)⟩

end Steady

/-- A trail keeps the guards in step, if the limit covers the depth at its start. -/
theorem Trail.steady (h : Trail w .free o b cx cx') (hd : cx.depth ≤ limit)
    (hm : cx.maxDepth ≤ limit) : ∃ during, Steady w limit cx cx' during := by
  induction h with
  | refl => exact ⟨_, .refl _⟩
  | trans h _ ih ih' =>
    obtain ⟨ms, hs⟩ := ih hd hm
    obtain ⟨ms', hs'⟩ := ih' (h.frame.depth ▸ hd) (h.frame.maxDepth ▸ hm)
    exact ⟨_, hs.trans hs' h.frame.guards⟩
  | stop _ _ ih => exact ih hd hm
  | caught _ _ ih => exact ih hd hm
  | deed h => exact Steady.deed h hd
  | sent | complaint | excused | reported | limit | served | deferred =>
    exact ⟨_, .of_moment (Context.moments_log _ _) hd rfl rfl⟩
  | guarded hs _ h ih =>
    obtain ⟨ms, hms⟩ := ih hd hm
    exact ⟨_, hms.guarded h.frame hs hd⟩
  | nested _ hlt h ih =>
    have hdeeper := Nat.le_trans hlt hm
    obtain ⟨ms, hms⟩ := ih hdeeper hm
    have hs := hms.after_moment (Context.moments_log _ _) hdeeper rfl rfl rfl
    exact ⟨_, hs.moments, hs.balanced, hs.inStep, hs.quiet⟩
  | introduced hs _ h ih =>
    have hf := Frame.introduce hs
    obtain ⟨ms, hms⟩ := ih (hf.depth ▸ hd) (hf.maxDepth ▸ hm)
    obtain ⟨first, hfirst⟩ := Steady.introduce hd
    exact ⟨_, hfirst.trans hms hf.guards⟩
  | described _ _ ho h _ ih =>
    obtain ⟨ms, hms⟩ := ih (ho ▸ hd) (ho ▸ hm)
    obtain rfl := ho
    exact ⟨_, hms.after_moment (Context.moments_log _ _) hd rfl rfl rfl⟩
  | describedGuarded _ hs _ _ _ ho h _ ih =>
    obtain ⟨ms, hms⟩ := ih (ho ▸ hd) (ho ▸ hm)
    obtain rfl := ho
    have hbody := hms.after_moment (Context.moments_populating _ _ _) hd rfl rfl rfl
    exact ⟨_, hbody.guarded ((Frame.populating _ _ _).trans h.frame) hs hd⟩
  | taken _ h ih =>
    obtain ⟨ms, hms⟩ := ih hd hm
    have hbegan := hms.after_moment (Context.moments_log _ _) hd rfl rfl rfl
    exact ⟨_, hbegan.after_moment (Context.moments_log _ _) hd rfl rfl rfl⟩
  | takenGuarded _ hs _ h ih =>
    obtain ⟨ms, hms⟩ := ih hd hm
    have hbegan := hms.after_moment (Context.moments_log _ _) hd rfl rfl rfl
    have hguarded := hbegan.guarded ((Frame.log _ _).trans h.frame) hs hd
    exact ⟨_, hguarded.after_moment (Context.moments_log _ _) hd rfl rfl rfl⟩

/-- A run keeps the guards in step, under its limit or at the depth of its start. -/
theorem run_steady (w : World) (budget : Nat) (p : Prog α) (cx : Context) :
    ∃ during, Steady w (max cx.depth cx.maxDepth) cx (w.run budget p cx).context during :=
  (run_free budget p cx).steady (Nat.le_max_left _ _) (Nat.le_max_right _ _)

/-- However a run ends, it leaves the depth and the guards as they were, and its records close
every guard they open. All along, the depth keeps to the limit and the guards are those that the
trap has left open so far; under an assembly's scope none is ever opened. -/
theorem run_balanced (w : World) (budget : Nat) (p : Prog α) (cx : Context) :
    (w.run budget p cx).context.depth = cx.depth ∧
    (w.run budget p cx).context.guards = cx.guards ∧
    ∃ during, (w.run budget p cx).context.moments = cx.moments ++ during ∧
      Balanced (written during) ∧
      ∀ past now later, during = past ++ now :: later →
        (cx.depth ≤ cx.maxDepth → now.depth ≤ cx.maxDepth) ∧
        (cx.guards = openKeys [] cx.trap →
          now.guards = openKeys [] (cx.trap ++ written (past ++ [now]))) ∧
        (w.scope.isAssembly = true → now.guards = cx.guards ∧ now.event.isGuard = false) := by
  have ht := run_free (w := w) budget p cx
  obtain ⟨during, hs⟩ := run_steady w budget p cx
  refine ⟨ht.frame.depth, ht.frame.guards, during, hs.moments, hs.balanced, ?_⟩
  rintro past now later rfl
  obtain ⟨hdepth, hguards⟩ := hs.inStep.now
  refine ⟨fun hd => ?_, fun hg => ?_, fun ha => hs.clear ha⟩
  · rwa [Nat.max_eq_right hd] at hdepth
  · rw [hguards, hg, openKeys_append]

end TrapFacts
