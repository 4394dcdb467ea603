import TrapFacts.Proofs.Engine.Course

/-! The course of a run as far as the queue goes: a turn for each thing that is queued or begun. -/

namespace TrapFacts

variable {α : Type} {w : World} {site : Site} {due : Option Due} {cx cx₁ cx' : Context} {e : Event}

namespace Event

def queued? : Event → Option Nat
  | .queued number _ => some number
  | _ => none

def taken? : Event → Option Nat
  | .taken number => some number
  | _ => none

def began? : Event → Option Nat
  | .began number => some number
  | _ => none

def Idle (e : Event) : Prop :=
  e.queued? = none ∧ e.taken? = none ∧ e.began? = none

end Event

/-- The numbers that events of a kind carry. -/
def numbers (kind : Event → Option Nat) (ms : List Moment) : List Nat :=
  ms.filterMap (kind ·.event)

theorem numbers_append (kind : Event → Option Nat) (ms ms' : List Moment) :
    numbers kind (ms ++ ms') = numbers kind ms ++ numbers kind ms' :=
  List.filterMap_append

theorem numbers_moment (kind : Event → Option Nat) (ms : List Moment) (cx : Context) (e : Event) :
    numbers kind (ms ++ [cx.moment e]) = numbers kind ms ++ (kind e).toList := by
  rw [numbers_append]
  cases he : kind e <;> simp [numbers, Context.moment, he]

theorem Context.moments_start (cx : Context) (a : Pending) (rest : List Pending) :
    ((cx.take a rest).log (.began a.number)).moments = cx.moments ++
      [(cx.take a rest).moment (.taken a.number), (cx.take a rest).moment (.began a.number)] := by
  simp [Context.moments_take]

theorem Context.moments_startGuarded (cx : Context) (a : Pending) (rest : List Pending)
    (key : Key) :
    (((cx.take a rest).openGuard key).log (.began a.number)).moments = cx.moments ++
      [(cx.take a rest).moment (.taken a.number),
        ((cx.take a rest).openGuard key).moment (.wrote (.push key)),
        ((cx.take a rest).openGuard key).moment (.began a.number)] := by
  simp [Context.moments_take, Context.moments_openGuard]

/-- What a step of a course does to the queue. -/
inductive Turn (w : World) : Context → Context → Prop
  | still {cx cx' : Context} : cx'.moments = cx.moments → cx'.queue = cx.queue →
      cx'.deferred = cx.deferred → Turn w cx cx'
  | event {e : Event} {cx cx' : Context} : cx'.moments = cx.moments ++ [cx'.moment e] → e.Idle →
      cx'.queue = cx.queue → cx'.deferred = cx.deferred → Turn w cx cx'
  | enqueue (cx : Context) {work : Work} :
      (∀ guard body, work = .program guard body → guard = cx.guards.head?) →
      Turn w cx (cx.enqueue work)
  | start {a : Pending} {rest} {cx : Context} : cx.queue = a :: rest →
      (∀ guard body, a.work = .program guard body → guard = none ∨ w.scope.isAssembly = true) →
      Turn w cx ((cx.take a rest).log (.began a.number))
  | startGuarded {number key body rest} {cx : Context} :
      cx.queue = ⟨number, .program (some key) body⟩ :: rest →
      Turn w cx (((cx.take ⟨number, .program (some key) body⟩ rest).openGuard key).log
        (.began number))

abbrev Turns (w : World) : Context → Context → Prop :=
  Relation.ReflTransGen (Turn w)

namespace Turns

theorem log (cx : Context) (h : e.Idle) : Turns w cx (cx.log e) :=
  .single (.event (cx.moments_log e) h rfl rfl)

theorem send (cx : Context) (message : Message) (about : Option Concern) :
    Turns w cx (cx.send message about) :=
  .single (.event (cx.moments_send message about) ⟨rfl, rfl, rfl⟩ rfl rfl)

theorem introduce (cx : Context) (slot : Slot) (en : Entity) :
    Turns w cx (cx.introduce slot en).2 := by
  let c : Created := ⟨cx.nextLabel, en⟩
  let remembered := cx.allocate.remember slot c
  let registered := remembered.register en.key.render
  have hremembered : Turn w cx remembered := by
    refine .still (cx.moments_remember slot c) ?_ ?_
    · cases slot <;> rfl
    · cases slot <;> rfl
  have hregistered : Turns w remembered registered := by
    unfold registered Context.register
    split
    · exact .refl
    · split
      · exact send _ _ _
      · exact .single (.still rfl rfl rfl)
  have hwritten : Turn w registered (registered.write (.define c.label en.key)) :=
    .event (registered.moments_write _) ⟨rfl, rfl, rfl⟩ rfl rfl
  exact ((hregistered.head hremembered).tail hwritten).trans (log _ ⟨rfl, rfl, rfl⟩)

theorem announce (cx : Context) (slot : Slot) (en : Entity) :
    Turns w cx (w.announce slot en cx) := by
  have hintroduce : Turns w cx (cx.introduce slot en).2 := introduce cx slot en
  unfold World.announce World.complain
  split
  · exact hintroduce.trans (send _ _ _)
  · exact hintroduce

theorem openGuard (cx : Context) (key : Key) : Turns w cx (cx.openGuard key) :=
  .single (.event (cx.moments_openGuard key) ⟨rfl, rfl, rfl⟩ rfl rfl)

theorem closeGuard (h : Turns w cx cx') : Turns w cx cx'.closeGuard :=
  h.tail (.event cx'.moments_closeGuard ⟨rfl, rfl, rfl⟩ rfl rfl)

theorem populating (cx : Context) (en : Entity) (l : Label) : Turns w cx (cx.populating en l) :=
  .single (.event (cx.moments_populating en l) ⟨rfl, rfl, rfl⟩ rfl rfl)

/-- Turns are the same one level deeper. -/
theorem nested {slot : Slot} (h : Turns w (cx.enter slot) cx') : Turns w cx cx'.leave := by
  have henter : Turn w cx (cx.enter slot) :=
    .event (cx.moments_enter slot) ⟨rfl, rfl, rfl⟩ rfl rfl
  exact (h.head henter).tail (.still rfl rfl rfl)

/-- A deed takes no turn. -/
theorem deed (h : Deed cx cx') : Turns w cx cx' := by
  cases h with
  | fresh | define => exact .single (.event (cx.allocate.moments_write _) ⟨rfl, rfl, rfl⟩ rfl rfl)
  | emit => exact .single (.event (cx.moments_write _) ⟨rfl, rfl, rfl⟩ rfl rfl)
  | missingType => exact .single (.event (cx.moments_missingType _) ⟨rfl, rfl, rfl⟩ rfl rfl)
  | setAssemblyFile | openGenerics => exact .single (.still rfl rfl rfl)
  | note => exact log cx ⟨rfl, rfl, rfl⟩
  | later => exact .single (.enqueue cx (by rintro _ _ ⟨⟩; rfl))

end Turns

/-- A course takes turns. -/
theorem Course.turns (h : Course w site due cx cx') : Turns w cx cx' := by
  induction h with
  | refl => exact .refl
  | trans _ _ ih ih' => exact ih.trans ih'
  | deed h => exact .deed h
  | sent | excused | reported => exact .send _ _ _
  | limit | served => exact .log _ ⟨rfl, rfl, rfl⟩
  | guarded _ _ ih => exact .closeGuard ((Turns.openGuard _ _).trans ih)
  | nested _ ih => exact .nested ih
  | bare => exact .introduce _ _ _
  | prompt _ _ _ ih => exact (Turns.announce _ _ _).trans ih
  | deferred => exact (Turns.announce _ _ _).tail (.enqueue _ (by rintro _ _ ⟨⟩))
  | described _ _ ih => exact (Turns.populating _ _ _).trans ih
  | describedGuarded _ _ _ _ ih =>
    exact .closeGuard ((Turns.openGuard _ _).trans ((Turns.populating _ _ _).trans ih))
  | stopped _ ih => exact ih
  | taken hq hg _ ih => exact ih.head (.start hq (by rintro _ _ ⟨⟩; exact hg))
  | takenGuarded hq _ _ ih => exact .closeGuard (ih.head (.startGuarded hq))
  | resumed hq _ ih => exact ih.head (.start hq (by rintro _ _ ⟨⟩))

/-- What holds of each moment, given what came before it and what comes after. -/
def Throughout (P : List Moment → Moment → List Moment → Prop) (ms : List Moment) : Prop :=
  ∀ past now later, ms = past ++ now :: later → P past now later

namespace Throughout

variable {P : List Moment → Moment → List Moment → Prop} {ms ms' : List Moment}

theorem nil : Throughout P [] := by
  intro past now later hsplit
  simp at hsplit

theorem cons {first : Moment} (h : P [] first ms)
    (h' : Throughout (fun past now later => P (first :: past) now later) ms) :
    Throughout P (first :: ms) := by
  intro past now later hsplit
  cases past with
  | nil =>
    obtain ⟨rfl, rfl⟩ := List.cons.inj hsplit
    exact h
  | cons first' past =>
    obtain ⟨rfl, hrest⟩ := List.cons.inj hsplit
    exact h' past now later hrest

/-- What comes later leaves what held before, and comes after all of it. -/
theorem append (h : Throughout P ms)
    (hlater : ∀ past now later, P past now later → P past now (later ++ ms'))
    (h' : Throughout (fun past now later => P (ms ++ past) now later) ms') :
    Throughout P (ms ++ ms') := by
  intro past now later hsplit
  rcases List.append_eq_append_iff.1 hsplit with ⟨mid, rfl, hms'⟩ | ⟨mid, hms, hlast⟩
  · exact h' mid now later hms'
  · cases mid with
    | nil =>
      have hnow : P (ms ++ []) now later := h' [] now later hlast.symm
      simp only [List.append_nil] at hms hnow
      rwa [hms] at hnow
    | cons first mid =>
      simp only [List.cons_append, List.cons.injEq] at hlast
      obtain ⟨rfl, rfl⟩ := hlast
      exact hlater past now mid (h past now mid hms)

/-- One more moment. -/
theorem snoc {last : Moment} (h : Throughout P ms)
    (hlater : ∀ past now later, P past now later → P past now (later ++ [last]))
    (hlast : P ms last []) : Throughout P (ms ++ [last]) :=
  h.append hlater (cons (by simpa using hlast) nil)

end Throughout

end TrapFacts
