import Mathlib.Data.List.Forall2
import TrapFacts.Proofs.Engine.Discreet
import TrapFacts.Proofs.Engine.Reply

/-! Contexts that differ in diagnostics alone. -/

namespace TrapFacts

universe u

variable {free : Bool} {cx cx' d d' : Context} {l : Label}

/-- Queued work that does the same, whatever becomes of diagnostics. -/
inductive Work.Echoes (free : Bool) : Work → Work → Prop
  | program {guard : Option Key} {body body' : Prog Unit} :
    body.Echoes free true body' → Echoes free (.program guard body) (.program guard body')
  | population {en : Entity} {l : Label} {body body' : Prog Unit} :
    body.Echoes free true body' → Echoes free (.population en l body) (.population en l body')

theorem Work.Echoes.entity? {work work' : Work} (h : work.Echoes free work') :
    work.entity? = work'.entity? := by
  cases h <;> rfl

structure Pending.Echoes (free : Bool) (a a' : Pending) : Prop where
  number : a.number = a'.number
  work : a.work.Echoes free a'.work

namespace Context

/-- A context without its diagnostics, in which the queued work does nothing. -/
def muted (cx : Context) : Context :=
  { cx with
    extractor := {}
    keys := {}
    journal := #[]
    queue := cx.queue.map fun a => { a with work := .program none (.pure ()) } }

/-- Whether two contexts speak up on the same occasions. -/
def Alike (cx cx' : Context) : Prop :=
  cx.extractor.config.standalone = cx'.extractor.config.standalone ∧
    cx.extractor.config.checkLabelCollisions = cx'.extractor.config.checkLabelCollisions

/-- Nothing happened but that something may have been said. -/
structure DiagnosedOnly (cx d : Context) : Prop where
  muted : d.muted = cx.muted
  queue : d.queue = cx.queue
  config : d.extractor.config = cx.extractor.config
  files : d.extractor.assemblyFile? = cx.extractor.assemblyFile?
  trap : d.trap = cx.trap

/-- Two contexts that differ in diagnostics alone. Not even in these, if they speak up on the same
occasions, which they do not if one may say something where the other does not. -/
structure Twins (free : Bool) (cx cx' : Context) : Prop where
  muted : cx.muted = cx'.muted
  maxDepth : cx.maxDepth = cx'.maxDepth
  files : cx.extractor.assemblyFile? = cx'.extractor.assemblyFile?
  trap : cx.trap = cx'.trap
  queue : List.Forall₂ (Pending.Echoes free) cx.queue cx'.queue
  alike : cx.Alike cx' → free = false ∧ cx.journal = cx'.journal ∧ cx.keys = cx'.keys

theorem DiagnosedOnly.refl (cx : Context) : cx.DiagnosedOnly cx :=
  ⟨rfl, rfl, rfl, rfl, rfl⟩

theorem DiagnosedOnly.send (cx : Context) (message : Message) (about : Option Concern) :
    cx.DiagnosedOnly (cx.send message about) :=
  ⟨rfl, rfl, rfl, rfl, by simp [trap_event (cx.events_send message about), Event.record?]⟩

theorem DiagnosedOnly.register (cx : Context) (rendered : String) : cx.DiagnosedOnly
    (cx.register rendered) := by
  unfold Context.register
  split
  · exact .refl cx
  · split
    · exact .send cx _ _
    · exact ⟨rfl, rfl, rfl, rfl, rfl⟩

namespace Twins

/-- Two extractors that agree on depth and assembly files start twins. -/
theorem fresh {x x' : Extractor} (hd : x.config.maxRecursionDepth = x'.config.maxRecursionDepth)
    (hf : x.assemblyFile? = x'.assemblyFile?)
    (ha : Alike { extractor := x } { extractor := x' } → free = false) :
    Twins free { extractor := x } { extractor := x' } :=
  ⟨rfl, hd, hf, rfl, .nil, fun h => ⟨ha h, rfl, rfl⟩⟩

section

variable (h : Twins free cx cx')

include h

/-- What is no diagnostic is the same. -/
theorem agree {γ : Type u} (f : Context → γ) (hf : ∀ cx, f cx.muted = f cx) : f cx = f cx' := by
  rw [← hf cx, ← hf cx', h.muted]

/-- A change of what is no diagnostic. -/
theorem change (hm : d.muted = d'.muted)
    (hd : d.extractor = cx.extractor ∧ d.journal = cx.journal ∧ d.keys = cx.keys)
    (hd' : d'.extractor = cx'.extractor ∧ d'.journal = cx'.journal ∧ d'.keys = cx'.keys)
    (hq : List.Forall₂ (Pending.Echoes free) d.queue d'.queue) : Twins free d d' := by
  obtain ⟨hx, hj, hk⟩ := hd
  obtain ⟨hx', hj', hk'⟩ := hd'
  refine ⟨hm, ?_, by rw [hx, hx', h.files], ?_, hq, fun ha => ?_⟩
  · rw [Context.maxDepth, Context.maxDepth, hx, hx']
    exact h.maxDepth
  · rw [Context.trap, Context.trap, hj, hj']
    exact h.trap
  · rw [Alike, hx, hx'] at ha
    rw [hj, hj', hk, hk']
    exact h.alike ha

/-- A change of neither diagnostics nor the queue. -/
theorem map (g : Context → Context) (hg : ∀ cx, (g cx).muted = g cx.muted ∧
    (g cx).queue = cx.queue ∧
    (g cx).extractor = cx.extractor ∧ (g cx).journal = cx.journal ∧ (g cx).keys = cx.keys) :
    Twins free (g cx) (g cx') := by
  obtain ⟨hm, hq, hd⟩ := hg cx
  obtain ⟨hm', hq', hd'⟩ := hg cx'
  refine h.change (by rw [hm, hm', h.muted]) hd hd' ?_
  rw [hq, hq']
  exact h.queue

/-- A change of what units share, but for settings and tables. -/
theorem share (y y' : Extractor) (hc : y.config = cx.extractor.config)
    (hc' : y'.config = cx'.extractor.config) (hf : y.assemblyFile? = cx.extractor.assemblyFile?)
    (hf' : y'.assemblyFile? = cx'.extractor.assemblyFile?) :
    Twins free { cx with extractor := y } { cx' with extractor := y' } where
  muted := h.muted
  maxDepth := by
    rw [Context.maxDepth, Context.maxDepth, hc, hc']
    exact h.maxDepth
  files := by rw [hf, hf', h.files]
  trap := h.trap
  queue := h.queue
  alike ha := by
    rw [Alike, hc, hc'] at ha
    exact h.alike ha

theorem log (e : Event) : Twins free (cx.log e) (cx'.log e) where
  muted := h.muted
  maxDepth := h.maxDepth
  files := h.files
  trap := by rw [trap_event (cx.events_log e), trap_event (cx'.events_log e), h.trap]
  queue := h.queue
  alike ha := by
    obtain ⟨hfree, hjournal, hkeys⟩ := h.alike ha
    refine ⟨hfree, ?_, hkeys⟩
    have hmoment : cx.moment e = cx'.moment e :=
      h.agree (Context.moment · e) fun cx => by simp [moment, Context.muted]
    change cx.journal.push (cx.moment e) = cx'.journal.push (cx'.moment e)
    rw [hjournal, hmoment]

theorem not_alike (hfree : free = true) : ¬ cx.Alike cx' := by
  intro ha
  have hcommon : free = false := (h.alike ha).1
  rw [hfree] at hcommon
  cases hcommon

/-- Whatever is said in contexts that do not speak up on the same occasions. -/
theorem apart (hn : ¬ cx.Alike cx') (hd : cx.DiagnosedOnly d) (hd' : cx'.DiagnosedOnly d') :
    Twins free d d' where
  muted := by rw [hd.muted, hd'.muted, h.muted]
  maxDepth := by
    rw [Context.maxDepth, Context.maxDepth, hd.config, hd'.config]
    exact h.maxDepth
  files := by rw [hd.files, hd'.files, h.files]
  trap := by rw [hd.trap, hd'.trap, h.trap]
  queue := by
    rw [hd.queue, hd'.queue]
    exact h.queue
  alike ha := by
    rw [Alike, hd.config, hd'.config] at ha
    exact absurd ha hn

theorem send (message : Message) (about : Option Concern) :
    Twins free (cx.send message about) (cx'.send message about) :=
  (h.share (cx.extractor.message message) (cx'.extractor.message message) rfl rfl rfl rfl).log
    (.sent message about)

theorem missingType (name : String) : Twins free (cx.missingType name) (cx'.missingType name) :=
  (h.share (cx.extractor.missingType name) (cx'.extractor.missingType name) rfl rfl rfl rfl).log
    (.missing name)

theorem setAssemblyFile (name file : String) :
    Twins free (cx.setAssemblyFile name file) (cx'.setAssemblyFile name file) where
  muted := h.muted
  maxDepth := h.maxDepth
  files := by
    funext other
    have hother := congrFun h.files other
    unfold Extractor.assemblyFile? at hother ⊢
    simp only [Context.setAssemblyFile, Extractor.setAssemblyFile, List.lookup_cons, hother]
  trap := h.trap
  queue := h.queue
  alike := h.alike

theorem write (r : Record) : Twins free (cx.write r) (cx'.write r) :=
  (h.map (fun cx => { cx with records := cx.records + 1 })
    fun _ => ⟨rfl, rfl, rfl, rfl, rfl⟩).log (.wrote r)

theorem allocate : Twins free cx.allocate cx'.allocate :=
  h.map _ fun _ => ⟨rfl, rfl, rfl, rfl, rfl⟩

theorem openGenerics (l : Label) : Twins free (cx.openGenerics l) (cx'.openGenerics l) :=
  h.map (·.openGenerics l) fun _ => ⟨rfl, rfl, rfl, rfl, rfl⟩

theorem enqueue {work work' : Work} (hw : work.Echoes free work') :
    Twins free (cx.enqueue work) (cx'.enqueue work') := by
  let waiting (work : Work) (cx : Context) : Context :=
    { cx with deferred := cx.deferred + 1, queue := cx.queue ++ [⟨cx.deferred, work⟩] }
  have hdeferred : cx.deferred = cx'.deferred := h.agree _ fun _ => rfl
  have hmuted : ∀ work cx, (waiting work cx).muted =
      waiting (.program none (.pure ())) cx.muted := fun work cx => by simp [waiting, Context.muted]
  have hwaiting : Twins free (waiting work cx) (waiting work' cx') := by
    refine h.change (by rw [hmuted, hmuted, h.muted]) ⟨rfl, rfl, rfl⟩ ⟨rfl, rfl, rfl⟩ ?_
    exact List.rel_append h.queue (.cons ⟨hdeferred, hw⟩ .nil)
  change Twins free ((waiting work cx).log (.queued cx.deferred work.entity?))
    ((waiting work' cx').log (.queued cx'.deferred work'.entity?))
  rw [← hdeferred, ← hw.entity?]
  exact hwaiting.log _

theorem take {a a' : Pending} {rest rest' : List Pending} (hq : cx.queue = a :: rest)
    (hq' : cx'.queue = a' :: rest') : Twins free (cx.take a rest) (cx'.take a' rest') := by
  have hqueue := h.queue
  rw [hq, hq'] at hqueue
  obtain ⟨ha, hrest⟩ := List.forall₂_cons.1 hqueue
  let left (rest : List Pending) (cx : Context) : Context := { cx with queue := rest }
  have hmuted : ∀ a rest cx, cx.queue = a :: rest →
      (left rest cx).muted = left cx.muted.queue.tail cx.muted := fun a rest cx hq => by
    simp [left, Context.muted, hq]
  have hleft : Twins free (left rest cx) (left rest' cx') :=
    h.change (by rw [hmuted _ _ _ hq, hmuted _ _ _ hq', h.muted]) ⟨rfl, rfl, rfl⟩ ⟨rfl, rfl, rfl⟩
      hrest
  change Twins free ((left rest cx).log (.taken a.number)) ((left rest' cx').log (.taken a'.number))
  rw [← ha.number]
  exact hleft.log _

theorem enter (slot : Slot) : Twins free (cx.enter slot) (cx'.enter slot) :=
  (h.map (fun cx => { cx with depth := cx.depth + 1 })
    fun _ => ⟨rfl, rfl, rfl, rfl, rfl⟩).log (.making slot)

theorem leave : Twins free cx.leave cx'.leave :=
  h.map _ fun _ => ⟨rfl, rfl, rfl, rfl, rfl⟩

theorem openGuard (key : Key) : Twins free (cx.openGuard key) (cx'.openGuard key) :=
  (h.map (fun cx => { cx with guards := key :: cx.guards })
    fun _ => ⟨rfl, rfl, rfl, rfl, rfl⟩).write (.push key)

theorem closeGuard : Twins free cx.closeGuard cx'.closeGuard :=
  (h.map (fun cx => { cx with guards := cx.guards.tail })
    fun _ => ⟨rfl, rfl, rfl, rfl, rfl⟩).write .pop

theorem populating (en : Entity) (l : Label) :
    Twins free (cx.populating en l) (cx'.populating en l) :=
  (h.map (fun cx => { cx with populated := cx.populated + 1 })
    fun _ => ⟨rfl, rfl, rfl, rfl, rfl⟩).log (.populating en l)

theorem register (rendered : String) :
    Twins free (cx.register rendered) (cx'.register rendered) := by
  by_cases ha : cx.Alike cx'
  · have hk := (h.alike ha).2.2
    unfold Context.register
    rw [← ha.2, ← hk]
    split
    · exact h
    · split
      · exact h.send _ _
      · exact { h with alike := fun ha => ⟨(h.alike ha).1, (h.alike ha).2.1, by rw [hk]⟩ }
  -- One may warn where the other does not look, but nothing depends on warnings.
  · exact h.apart ha (.register cx rendered) (.register cx' rendered)

/-- Twins give a new entity the same label. -/
theorem introduce (slot : Slot) (en : Entity) :
    (cx.introduce slot en).1 = (cx'.introduce slot en).1 ∧
      Twins free (cx.introduce slot en).2 (cx'.introduce slot en).2 := by
  have hnext : cx.nextLabel = cx'.nextLabel := h.agree _ fun _ => rfl
  have hremember : Twins free (cx.allocate.remember slot ⟨cx.nextLabel, en⟩)
      (cx'.allocate.remember slot ⟨cx.nextLabel, en⟩) :=
    h.allocate.map (·.remember slot ⟨cx.nextLabel, en⟩) fun _ => by
      cases slot <;> exact ⟨rfl, rfl, rfl, rfl, rfl⟩
  have hwritten := (hremember.register en.key.render).write (.define cx.nextLabel en.key)
  unfold Context.introduce
  rw [← hnext]
  exact ⟨rfl, hwritten.log _⟩

end

end Twins

end Context

end TrapFacts
