import TrapFacts.Proofs.Engine.Guards
import TrapFacts.Proofs.Engine.Turns

/-! Queued work is started in the order of queueing, and none is lost. -/

namespace TrapFacts

variable {α : Type} {w : World} {site : Site} {cx cx₁ cx' : Context} {e : Event}

/-- So far, what was queued is numbered in that order, and what left the queue came first in it;
the rest waits. -/
def Moment.Counts (past : List Moment) (now : Moment) : Prop :=
  numbers Event.queued? (past ++ [now]) = List.range now.deferred ∧
  ∃ started, numbers Event.taken? (past ++ [now]) = List.range started ∧
    started + now.pending = now.deferred

theorem eq_range_of_append {xs ys : List Nat} {n : Nat} (h : xs ++ ys = List.range n) :
    xs = List.range xs.length ∧ xs.length + ys.length = n := by
  have hlength : xs.length + ys.length = n := by
    rw [← List.length_append, h, List.length_range]
  refine ⟨?_, hlength⟩
  calc xs = (xs ++ ys).take xs.length := by rw [List.take_left]
    _ = List.range (min xs.length n) := by rw [h, List.take_range]
    _ = List.range xs.length := by rw [Nat.min_eq_left (by omega)]

/-- The journal tells what the queue holds. -/
structure Counted (cx : Context) : Prop where
  queued : numbers Event.queued? cx.moments = List.range cx.deferred
  waiting : numbers Event.taken? cx.moments ++ cx.queue.map Pending.number = List.range cx.deferred
  counts : Throughout (fun past now _ => now.Counts past) cx.moments

namespace Counted

theorem fresh (x : Extractor) : Counted { extractor := x } :=
  ⟨rfl, rfl, .nil⟩

theorem snoc (h : Counted cx) (hm : cx'.moments = cx.moments ++ [cx'.moment e])
    (hq : numbers Event.queued? cx'.moments = List.range cx'.deferred)
    (hw : numbers Event.taken? cx'.moments ++ cx'.queue.map Pending.number =
      List.range cx'.deferred) : Counted cx' := by
  have hlength := eq_range_of_append hw
  rw [List.length_map] at hlength
  obtain ⟨htaken, hlength⟩ := hlength
  refine ⟨hq, hw, ?_⟩
  rw [hm] at hq htaken ⊢
  refine h.counts.snoc (fun _ _ _ hc => hc) ⟨hq, _, htaken, ?_⟩
  rw [← hm]
  exact hlength

theorem event (h : Counted cx) (hm : cx'.moments = cx.moments ++ [cx'.moment e])
    (he : e.queued? = none ∧ e.taken? = none) (hq : cx'.queue = cx.queue)
    (hd : cx'.deferred = cx.deferred) : Counted cx' := by
  refine h.snoc hm ?_ ?_
  · rw [hm, numbers_moment, he.1, hd, ← h.queued]
    simp
  · rw [hm, numbers_moment, he.2, hd, hq, ← h.waiting]
    simp

theorem enqueue (h : Counted cx) (work : Work) : Counted (cx.enqueue work) := by
  have hm := cx.moments_enqueue work
  have hqueue : (cx.enqueue work).queue = cx.queue ++ [⟨cx.deferred, work⟩] := rfl
  have hdeferred : (cx.enqueue work).deferred = cx.deferred + 1 := rfl
  refine h.snoc hm ?_ ?_
  · rw [hm, numbers_moment, hdeferred, List.range_succ, ← h.queued]
    rfl
  · rw [hm, numbers_moment, hdeferred, hqueue, List.range_succ, ← h.waiting]
    simp [Event.taken?]

theorem take {a : Pending} {rest : List Pending} (h : Counted cx) (hq : cx.queue = a :: rest) :
    Counted (cx.take a rest) := by
  have hm := cx.moments_take a rest
  have hqueue : (cx.take a rest).queue = rest := rfl
  have hdeferred : (cx.take a rest).deferred = cx.deferred := rfl
  refine h.snoc hm ?_ ?_
  · rw [hm, numbers_moment, hdeferred, ← h.queued]
    simp [Event.queued?]
  · rw [hm, numbers_moment, hdeferred, hqueue, ← h.waiting, hq]
    simp [Event.taken?]

/-- A turn takes the next number in line. -/
theorem turn (h : Counted cx) (ht : Turn w cx cx') : Counted cx' := by
  cases ht with
  | still hm hq hd =>
    obtain ⟨hqueued, hwaiting, hcounts⟩ := h
    exact ⟨by rw [hm, hd]; exact hqueued, by rw [hm, hq, hd]; exact hwaiting, hm ▸ hcounts⟩
  | event hm he hq hd => exact h.event hm ⟨he.1, he.2.1⟩ hq hd
  | enqueue => exact h.enqueue _
  | start hq => exact (h.take hq).event (Context.moments_log _ _) ⟨rfl, rfl⟩ rfl rfl
  | @startGuarded number key body rest _ hq =>
    have hopened := (h.take hq).event (Context.moments_openGuard _ key) ⟨rfl, rfl⟩ rfl rfl
    exact hopened.event (Context.moments_log _ _) ⟨rfl, rfl⟩ rfl rfl

theorem turns (h : Counted cx) (ht : Turns w cx cx') : Counted cx' := by
  induction ht with
  | refl => exact h
  | tail _ ht ih => exact ih.turn ht

end Counted

/-- Whether what left the queue is the next thing to begin, inside a guard or not. -/
def BeginsNext (number : Nat) (later : List Moment) : Prop :=
  [.began number] <+: later.map Moment.event ∨
    ∃ key, [.wrote (.push key), .began number] <+: later.map Moment.event

theorem BeginsNext.append {number : Nat} {later : List Moment} (h : BeginsNext number later)
    (ms : List Moment) : BeginsNext number (later ++ ms) := by
  unfold BeginsNext at h ⊢
  rw [List.map_append]
  rcases h with h | ⟨key, h⟩
  · exact .inl (h.trans (List.prefix_append _ _))
  · exact .inr ⟨key, h.trans (List.prefix_append _ _)⟩

/-- What leaves the queue begins, and nothing else does. -/
structure Prompt (cx : Context) : Prop where
  began : numbers Event.began? cx.moments = numbers Event.taken? cx.moments
  next : Throughout (fun _ now later => ∀ number, now.event = .taken number →
    BeginsNext number later) cx.moments

namespace Prompt

theorem fresh (x : Extractor) : Prompt { extractor := x } :=
  ⟨rfl, .nil⟩

theorem append {ms : List Moment} (h : Prompt cx) (hm : cx'.moments = cx.moments ++ ms)
    (hb : numbers Event.began? ms = numbers Event.taken? ms)
    (hn : Throughout (fun _ now later => ∀ number, now.event = .taken number →
      BeginsNext number later) ms) : Prompt cx' where
  began := by rw [hm, numbers_append, numbers_append, hb, h.began]
  next := by
    rw [hm]
    exact h.next.append (fun _ _ _ hn number ht => (hn number ht).append _) hn

/-- What a turn takes begins within it. -/
theorem turn (h : Prompt cx) (ht : Turn w cx cx') : Prompt cx' := by
  cases ht with
  | still hm => exact ⟨by rw [hm]; exact h.began, by rw [hm]; exact h.next⟩
  | @event e _ _ hm he =>
    refine h.append hm ?_ (.cons (fun number hnow => ?_) .nil)
    · rw [← List.nil_append [cx'.moment e], numbers_moment, numbers_moment, he.2.1, he.2.2]
      rfl
    · have hidle := he.2.1
      rw [show e = .taken number from hnow] at hidle
      cases hidle
  | enqueue => exact h.append (cx.moments_enqueue _) rfl (.cons (by rintro _ ⟨⟩) .nil)
  | @start a rest _ hq =>
    have hm := cx.moments_start a rest
    refine h.append hm rfl (.cons ?_ (.cons (by rintro _ ⟨⟩) .nil))
    rintro _ ⟨⟩
    exact .inl List.prefix_rfl
  | @startGuarded number key body rest _ hq =>
    have hm := cx.moments_startGuarded ⟨number, .program (some key) body⟩ rest key
    refine h.append hm rfl (.cons ?_ (.cons (by rintro _ ⟨⟩) (.cons (by rintro _ ⟨⟩) .nil)))
    rintro _ ⟨⟩
    exact .inr ⟨key, List.prefix_rfl⟩

theorem turns (h : Prompt cx) (ht : Turns w cx cx') : Prompt cx' := by
  induction ht with
  | refl => exact h
  | tail _ ht ih => exact ih.turn ht

end Prompt

/-- Nothing leaves the queue inside a guard. -/
def Context.DrainsBare (cx : Context) : Prop :=
  ∀ now ∈ cx.moments, ∀ number, now.event = .taken number → now.guards = []

/-- There is no guard where work leaves the queue, nor anywhere in an assembly's trap. -/
def Clear (w : World) (cx : Context) : Prop :=
  cx.DrainsBare ∧ (w.scope.isAssembly = true → ∀ now ∈ cx.moments, now.guards = [])

theorem Clear.mono (h : Clear w cx') (hm : cx.moments <+: cx'.moments) : Clear w cx :=
  ⟨fun now hn => h.1 now (hm.subset hn), fun hs now hn => h.2 hs now (hm.subset hn)⟩

/-- A program begins inside the guard that was open when it was queued, if there was one, a
description inside none. -/
def Replays (number : Nat) (past : List Moment) (now : Moment) : Prop :=
  ∃ first ∈ past, ∃ entity, first.event = .queued number entity ∧
    (entity = none → now.guards.head? = first.guards.head?) ∧
    (entity.isSome = true → now.guards = [])

/-- The guards of programs that wait are those that were open when they were queued, and those
that began had them open again. -/
structure Replayed (w : World) (cx : Context) : Prop where
  waiting : ∀ a ∈ cx.queue, ∃ first ∈ cx.moments, first.event = .queued a.number a.work.entity? ∧
    ∀ guard body, a.work = .program guard body → first.guards.head? = guard
  began : Clear w cx →
    Throughout (fun past now _ => ∀ number, now.event = .began number → Replays number past now)
      cx.moments

namespace Replayed

theorem fresh (x : Extractor) : Replayed w { extractor := x } :=
  ⟨by simp, fun _ => .nil⟩

theorem append {ms : List Moment} (h : Replayed w cx) (hm : cx'.moments = cx.moments ++ ms)
    (hq : ∀ a ∈ cx'.queue, a ∈ cx.queue)
    (hb : Clear w cx' → Throughout (fun past now _ => ∀ number, now.event = .began number →
      Replays number (cx.moments ++ past) now) ms) : Replayed w cx' where
  waiting a ha := by
    obtain ⟨first, hfirst, hqueued⟩ := h.waiting a (hq a ha)
    exact ⟨first, hm ▸ List.mem_append_left _ hfirst, hqueued⟩
  began hc := by
    have hprefix : cx.moments <+: cx'.moments := ⟨ms, hm.symm⟩
    rw [hm]
    exact (h.began (hc.mono hprefix)).append (fun _ _ _ hn => hn) (hb hc)

theorem enqueue {work : Work} (h : Replayed w cx)
    (hw : ∀ guard body, work = .program guard body → guard = cx.guards.head?) :
    Replayed w (cx.enqueue work) where
  waiting a ha := by
    have hm := cx.moments_enqueue work
    have hqueue : (cx.enqueue work).queue = cx.queue ++ [⟨cx.deferred, work⟩] := rfl
    rw [hqueue, List.mem_append, List.mem_singleton] at ha
    rcases ha with ha | rfl
    · obtain ⟨first, hfirst, hqueued⟩ := h.waiting a ha
      exact ⟨first, hm ▸ List.mem_append_left _ hfirst, hqueued⟩
    · refine ⟨_, hm ▸ List.mem_append_right _ List.mem_cons_self, rfl, fun guard body hwork => ?_⟩
      exact (hw guard body hwork).symm
  began hc := by
    have hm := cx.moments_enqueue work
    have hprefix : cx.moments <+: (cx.enqueue work).moments := ⟨_, hm.symm⟩
    rw [hm]
    exact (h.began (hc.mono hprefix)).snoc (fun _ _ _ hn => hn) (by rintro _ ⟨⟩)

theorem start {a : Pending} {rest : List Pending} (h : Replayed w cx) (hq : cx.queue = a :: rest)
    (hg : ∀ guard body, a.work = .program guard body → guard = none ∨ w.scope.isAssembly = true) :
    Replayed w ((cx.take a rest).log (.began a.number)) := by
  have hm := cx.moments_start a rest
  refine h.append hm (fun b hb => hq ▸ List.mem_cons_of_mem _ hb) fun hc =>
    .cons (by rintro _ ⟨⟩) (.cons ?_ .nil)
  rintro _ ⟨⟩
  obtain ⟨first, hfirst, hqueued, hguard⟩ := h.waiting a (hq ▸ List.mem_cons_self)
  have hbare : cx.guards = [] :=
    hc.1 ((cx.take a rest).moment (.taken a.number)) (by simp [hm]) a.number rfl
  refine ⟨first, by simp [hfirst], a.work.entity?, hqueued, fun hn => ?_, fun _ => hbare⟩
  cases hw : a.work with
  | population => simp [hw, Work.entity?] at hn
  | program guard body =>
    have hopen : first.guards.head? = none := by
      rcases hg guard body hw with rfl | hs
      · exact hguard _ _ hw
      · rw [hc.2 hs first (by simp [hm, hfirst])]
        rfl
    rw [hopen]
    exact congrArg List.head? hbare

theorem startGuarded {number : Nat} {key : Key} {body : Prog Unit} {rest : List Pending}
    (h : Replayed w cx) (hq : cx.queue = ⟨number, .program (some key) body⟩ :: rest) :
    Replayed w (((cx.take ⟨number, .program (some key) body⟩ rest).openGuard key).log
      (.began number)) := by
  let a : Pending := ⟨number, .program (some key) body⟩
  have hm := cx.moments_startGuarded a rest key
  refine h.append hm (fun b hb => hq ▸ List.mem_cons_of_mem _ hb) fun _ =>
    .cons (by rintro _ ⟨⟩) (.cons (by rintro _ ⟨⟩) (.cons ?_ .nil))
  rintro _ ⟨⟩
  obtain ⟨first, hfirst, hqueued, hguard⟩ := h.waiting a (hq ▸ List.mem_cons_self)
  refine ⟨first, by simp [hfirst], none, hqueued, fun _ => ?_, by simp⟩
  exact (hguard _ _ rfl).symm

/-- What begins within a turn begins under the guard that it was put off under. -/
theorem turn (h : Replayed w cx) (ht : Turn w cx cx') : Replayed w cx' := by
  cases ht with
  | still hm hq =>
    exact h.append (by rw [hm, List.append_nil]) (fun a ha => hq ▸ ha) fun _ => .nil
  | @event e _ _ hm he hq =>
    refine h.append hm (fun a ha => hq ▸ ha) fun _ => .cons (fun number hnow => ?_) .nil
    have hidle := he.2.2
    rw [show e = .began number from hnow] at hidle
    cases hidle
  | enqueue _ hw => exact h.enqueue hw
  | start hq hg => exact h.start hq hg
  | startGuarded hq => exact h.startGuarded hq

theorem turns (h : Replayed w cx) (ht : Turns w cx cx') : Replayed w cx' := by
  induction ht with
  | refl => exact h
  | tail _ ht ih => exact ih.turn ht

end Replayed

/-- What was queued on the way, and what left the queue: the first of all that waited and was
queued. The rest waits, in the same order. -/
structure Flow (cx cx' : Context) (added gone : List Pending) : Prop where
  queue : cx.queue ++ added = gone ++ cx'.queue
  queued : numbers Event.queued? cx'.moments =
    numbers Event.queued? cx.moments ++ added.map Pending.number
  taken : numbers Event.taken? cx'.moments =
    numbers Event.taken? cx.moments ++ gone.map Pending.number

namespace Flow

variable {added added' gone gone' : List Pending}

theorem refl (cx : Context) : Flow cx cx [] [] := by
  refine ⟨?_, ?_, ?_⟩ <;> simp

theorem trans (h : Flow cx cx₁ added gone) (h' : Flow cx₁ cx' added' gone') :
    Flow cx cx' (added ++ added') (gone ++ gone') where
  queue := by
    calc cx.queue ++ (added ++ added')
        = gone ++ (cx₁.queue ++ added') := by
          rw [← List.append_assoc, h.queue, List.append_assoc]
      _ = gone ++ gone' ++ cx'.queue := by rw [h'.queue, List.append_assoc]
  queued := by rw [h'.queued, h.queued, List.map_append, List.append_assoc]
  taken := by rw [h'.taken, h.taken, List.map_append, List.append_assoc]

theorem event (hm : cx'.moments = cx.moments ++ [cx'.moment e])
    (he : e.queued? = none ∧ e.taken? = none) (hq : cx'.queue = cx.queue) : Flow cx cx' [] [] where
  queue := by simp [hq]
  queued := by
    rw [hm, numbers_moment, he.1]
    rfl
  taken := by
    rw [hm, numbers_moment, he.2]
    rfl

theorem take {a : Pending} {rest : List Pending} (hq : cx.queue = a :: rest) :
    Flow cx (cx.take a rest) [] [a] where
  queue := by
    rw [hq]
    simp [Context.take, Context.log]
  queued := by
    rw [cx.moments_take a rest, numbers_moment]
    rfl
  taken := by
    rw [cx.moments_take a rest, numbers_moment]
    rfl

theorem enqueue (cx : Context) (work : Work) :
    Flow cx (cx.enqueue work) [⟨cx.deferred, work⟩] [] where
  queue := rfl
  queued := by
    rw [cx.moments_enqueue work, numbers_moment]
    rfl
  taken := by
    rw [cx.moments_enqueue work, numbers_moment]
    rfl

end Flow

/-- Whatever happened, nothing was lost. -/
def Flows (cx cx' : Context) : Prop :=
  ∃ added gone, Flow cx cx' added gone

namespace Flows

theorem refl (cx : Context) : Flows cx cx :=
  ⟨[], [], .refl cx⟩

theorem trans (h : Flows cx cx₁) (h' : Flows cx₁ cx') : Flows cx cx' := by
  obtain ⟨added, gone, hflow⟩ := h
  obtain ⟨added', gone', hflow'⟩ := h'
  exact ⟨_, _, hflow.trans hflow'⟩

theorem take {a : Pending} {rest : List Pending} (hq : cx.queue = a :: rest) :
    Flows cx (cx.take a rest) :=
  ⟨_, _, .take hq⟩

theorem log (cx : Context) (he : e.queued? = none ∧ e.taken? = none) : Flows cx (cx.log e) :=
  ⟨[], [], .event (cx.moments_log e) he rfl⟩

theorem send (cx : Context) (message : Message) (about : Option Concern) :
    Flows cx (cx.send message about) :=
  ⟨[], [], .event (cx.moments_send message about) ⟨rfl, rfl⟩ rfl⟩

theorem openGuard (cx : Context) (key : Key) : Flows cx (cx.openGuard key) :=
  ⟨[], [], .event (cx.moments_openGuard key) ⟨rfl, rfl⟩ rfl⟩

theorem closeGuard (cx : Context) : Flows cx cx.closeGuard :=
  ⟨[], [], .event cx.moments_closeGuard ⟨rfl, rfl⟩ rfl⟩

/-- A turn puts work at the end of the queue and takes it from the front. -/
theorem turn (h : Turn w cx cx') : Flows cx cx' := by
  cases h with
  | still hm hq => exact ⟨[], [], by simp [hq], by simp [hm], by simp [hm]⟩
  | event hm he hq => exact ⟨[], [], .event hm ⟨he.1, he.2.1⟩ hq⟩
  | enqueue => exact ⟨_, _, .enqueue cx _⟩
  | start hq => exact (take hq).trans (log _ ⟨rfl, rfl⟩)
  | startGuarded hq => exact (take hq).trans ((openGuard _ _).trans (log _ ⟨rfl, rfl⟩))

theorem turns (h : Turns w cx cx') : Flows cx cx' := by
  induction h with
  | refl => exact refl cx
  | tail _ ht ih => exact ih.trans (turn ht)

end Flows

namespace World

end World

/-- No guard is ever open under an assembly's scope. -/
theorem run_clear {budget : Nat} {p : Prog α} {x : Extractor}
    (h : (w.run budget p { extractor := x }).context.DrainsBare) :
    Clear w (w.run budget p { extractor := x }).context := by
  refine ⟨h, fun hs now hnow => ?_⟩
  obtain ⟨during, hsteady⟩ := run_steady w budget p { extractor := x }
  rw [hsteady.moments] at hnow
  obtain ⟨past, later, rfl⟩ := List.append_of_mem (show now ∈ during from hnow)
  exact (hsteady.clear hs).1

end TrapFacts
