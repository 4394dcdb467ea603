import TrapFacts.Proofs.Engine.Journal
import Mathlib.Logic.Relation

/-! What a run can do to a context, step by step. Descriptions that are owed are spent once. -/

namespace TrapFacts

/-- What an operation of a program does on its own account. -/
inductive Deed : Context → Context → Prop
  | fresh (cx) : Deed cx (cx.allocate.write (.fresh cx.nextLabel))
  | define (cx key) : Deed cx (cx.allocate.write (.define cx.nextLabel key))
  | emit (cx fact) : Deed cx (cx.write (.tuple fact))
  | missingType (cx name) : Deed cx (cx.missingType name)
  | setAssemblyFile (cx name file) : Deed cx (cx.setAssemblyFile name file)
  | openGenerics (cx label) : Deed cx (cx.openGenerics label)
  | note (cx remark) : Deed cx (cx.log (.noted remark))
  | later (cx body) : Deed cx (cx.enqueue (.program cx.guards.head? body))

abbrev Deeds := Relation.ReflTransGen Deed

/-- How the programs of a run behave. -/
structure Manner where
  deed : Context → Context → Prop
  /-- What a description does before all else. -/
  opening : Entity → Label → Context → Context → Prop
  /-- What a description has done when it ends, and from where on. -/
  closing : Entity → Label → Context → Context → Prop
  /-- Which entities are introduced, and where. -/
  entity : Slot → Entity → Context → Prop
  body : Entity → Label → Prog Unit → Prop
  /-- Which entities have a place that can be made. -/
  place : Entity → Prop
  /-- Which label stands for the place in an entity's own guard. -/
  site : Entity → Label → Context → Prop
  /-- Under which guards programs put their own operations. -/
  guard : Key → Prop
  /-- Why a description may be given up before it begins. -/
  excuse : Entity → Message → Prop
  /-- Whether programs go on after a fatal failure. -/
  catches : Prop
  deeds : ∀ {cx cx'}, deed cx cx' → Deeds cx cx'
  openings : ∀ {en l cx cx'}, opening en l cx cx' → Deeds cx cx'

def Manner.free : Manner where
  deed := Deed
  opening _ _ := Eq
  closing _ _ _ _ := True
  entity _ _ _ := True
  body _ _ _ := True
  place _ := True
  site _ _ _ := True
  guard _ := True
  excuse _ _ := True
  catches := True
  deeds h := .single h
  openings h := h ▸ .refl

/-- Whatever is done in one manner is done in another one too, which asks for no more. -/
structure Manner.Refines (m m' : Manner) : Prop where
  deed : ∀ {cx cx'}, m.deed cx cx' → Relation.ReflTransGen m'.deed cx cx'
  opening : ∀ {en l cx cx'}, m.opening en l cx cx' →
    ∃ cx₁, m'.opening en l cx cx₁ ∧ Relation.ReflTransGen m'.deed cx₁ cx'
  closing : ∀ {en l cx cx'}, m.closing en l cx cx' → m'.closing en l cx cx'
  entity : ∀ {slot en cx}, m.entity slot en cx → m'.entity slot en cx
  body : ∀ {en l p}, m.body en l p → m'.body en l p
  place : ∀ {en}, m.place en → m'.place en
  site : ∀ {en l cx}, m.site en l cx → m'.site en l cx
  guard : ∀ {key}, m.guard key → m'.guard key
  excuse : ∀ {en message}, m.excuse en message → m'.excuse en message
  catches : m.catches → m'.catches

theorem Manner.refines_free (m : Manner) : m.Refines .free where
  deed h := m.deeds h
  opening h := ⟨_, rfl, m.openings h⟩
  closing _ := trivial
  entity _ := trivial
  body _ := trivial
  place _ := trivial
  site _ := trivial
  guard _ := trivial
  excuse _ := trivial
  catches _ := trivial

def Created.dues (c : Created) : List Due :=
  if c.entity.needsPopulation then [(c.entity, c.label)] else []

/-- A way that a run may lead. It spends the listed descriptions; the flag tells whether it ended
in a fatal failure, which drops what is owed. -/
inductive Trail (w : World) (m : Manner) : List Due → Bool → Context → Context → Prop
  | refl (cx : Context) : Trail w m [] false cx cx
  | trans : Trail w m o false cx cx₁ → Trail w m o' b cx₁ cx' → Trail w m (o ++ o') b cx cx'
  | stop (o : List Due) : Trail w m [] b cx cx' → Trail w m o true cx cx'
  | caught : m.catches → Trail w m o true cx cx' → Trail w m o false cx cx'
  | deed : m.deed cx cx' → Trail w m [] false cx cx'
  | sent (cx : Context) (message : Message) : Trail w m [] false cx (cx.send message none)
  | limit {cx : Context} : cx.maxDepth ≤ cx.depth → Trail w m [] true cx (cx.log .limitHit)
  | served {cx : Context} {slot} {c : Created} : cx.same? slot c.entity = some c →
      Trail w m [] false cx (cx.log (.served slot c))
  | guarded {cx cx' : Context} {key} : w.scope.isAssembly = false → m.guard key →
      Trail w m [] b (cx.openGuard key) cx' → Trail w m [] b cx cx'.closeGuard
  | nested {cx : Context} {slot} : cx.known? slot = none → cx.depth < cx.maxDepth →
      Trail w m [] b (cx.enter slot) cx' → Trail w m [] b cx cx'.leave
  | introduced {cx : Context} {slot en} : cx.same? slot en = none → m.entity slot en cx →
      Trail w m (cx.introduce slot en).1.dues b (cx.introduce slot en).2 cx' →
      Trail w m [] b cx cx'
  | complaint {cx : Context} {en : Entity} {l body} (message : Message) : m.body en l body →
      en.behavior = .needsScope → cx.guards = [] →
      Trail w m [] false cx (cx.send message (some (.missingGuard l)))
  | deferred {cx : Context} {en : Entity} {l body} : m.body en l body → cx.guards ≠ [] →
      en.behavior = .noScope ∨ en.behavior = .pushesScope →
      Trail w m [(en, l)] false cx (cx.enqueue (.population en l body))
  | described {cx : Context} {en : Entity} :
      en.behavior ≠ .pushesScope ∨ w.scope.isAssembly = true → m.place en →
      m.opening en l (cx.populating en l) cx₁ → Trail w m [] b cx₁ cx' →
      (b = false → m.closing en l cx cx') → Trail w m [(en, l)] b cx cx'
  | describedGuarded {cx : Context} {en : Entity} {place} : en.behavior = .pushesScope →
      w.scope.isAssembly = false → m.place en →
      Event.served (w.catalog (.location en.reportingLocation?)).slot place ∈ cx.events →
      m.site en place.label cx →
      m.opening en l ((cx.openGuard (.label l (.ofLabel place.label))).populating en l) cx₁ →
      Trail w m [] b cx₁ cx' →
      (b = false → m.closing en l (cx.openGuard (.label l (.ofLabel place.label))) cx') →
      Trail w m [(en, l)] b cx cx'.closeGuard
  | excused {message} : m.excuse en message →
      Trail w m [(en, l)] false cx (cx.send message (some (.failure l)))
  | reported {cx : Context} (message : Message) : Event.populating en l ∈ cx.events →
      Trail w m [] false cx (cx.send message (some (.failure l)))
  | taken {cx : Context} {a rest} : cx.queue = a :: rest →
      Trail w m a.work.dues b ((cx.take a rest).log (.began a.number)) cx' → Trail w m [] b cx cx'
  | takenGuarded {cx : Context} {number key body rest} :
      cx.queue = ⟨number, .program (some key) body⟩ :: rest → w.scope.isAssembly = false →
      m.guard key →
      Trail w m [] b (((cx.take ⟨number, .program (some key) body⟩ rest).openGuard key).log
        (.began number)) cx' →
      Trail w m [] b cx cx'.closeGuard

variable {w : World} {m : Manner} {o : List Due} {b : Bool} {cx cx₁ cx' : Context}
  {slot : Slot} {en : Entity} {l : Label}

namespace Trail

theorem nil_append (h : Trail w m [] false cx cx₁) (h' : Trail w m o b cx₁ cx') :
    Trail w m o b cx cx' :=
  h.trans h'

/-- Deeds in a row are a trail. -/
theorem of_deeds (h : Relation.ReflTransGen m.deed cx cx') : Trail w m [] false cx cx' := by
  induction h with
  | refl => exact .refl _
  | tail _ h ih => exact ih.trans (.deed h)

/-- A trail in one manner is one in every laxer manner. -/
theorem relax {m' : Manner} (hm : m.Refines m') (h : Trail w m o b cx cx') :
    Trail w m' o b cx cx' := by
  induction h with
  | refl => exact .refl _
  | trans _ _ ih ih' => exact ih.trans ih'
  | stop o _ ih => exact .stop o ih
  | caught hc _ ih => exact .caught (hm.catches hc) ih
  | deed h => exact of_deeds (hm.deed h)
  | sent => exact .sent _ _
  | limit h => exact .limit h
  | served h => exact .served h
  | guarded hs hg _ ih => exact .guarded hs (hm.guard hg) ih
  | nested hk hd _ ih => exact .nested hk hd ih
  | introduced hs he _ ih => exact .introduced hs (hm.entity he) ih
  | complaint message hbody hn hg => exact .complaint message (hm.body hbody) hn hg
  | deferred hbody hg hb => exact .deferred (hm.body hbody) hg hb
  | described hb hp ho _ hc ih =>
    obtain ⟨_, ho', hd⟩ := hm.opening ho
    exact .described hb (hm.place hp) ho' ((of_deeds hd).trans ih) fun h => hm.closing (hc h)
  | describedGuarded hb hs hp hv hsite ho _ hc ih =>
    obtain ⟨_, ho', hd⟩ := hm.opening ho
    exact .describedGuarded hb hs (hm.place hp) hv (hm.site hsite) ho' ((of_deeds hd).trans ih)
      fun h => hm.closing (hc h)
  | excused hx => exact .excused (hm.excuse hx)
  | reported message h => exact .reported message h
  | taken hq _ ih => exact .taken hq ih
  | takenGuarded hq hs hg _ ih => exact .takenGuarded hq hs (hm.guard hg) ih

/-- Whatever programs are bound to, they could do if they were free. -/
theorem free (h : Trail w m o b cx cx') : Trail w .free o b cx cx' :=
  h.relax m.refines_free

end Trail

/-- What a trail leaves in place. -/
structure Frame (cx cx' : Context) : Prop where
  depth : cx'.depth = cx.depth
  guards : cx'.guards = cx.guards
  config : cx'.extractor.config = cx.extractor.config
  labels : cx.labels ≤ cx'.labels
  events : cx.events <+: cx'.events
  same : ∀ {slot en c}, cx.same? slot en = some c → cx'.same? slot en = some c
  generics : ∀ {l : Label}, l ∈ cx.generics → l ∈ cx'.generics

namespace Frame

theorem refl (cx : Context) : Frame cx cx :=
  ⟨rfl, rfl, rfl, Nat.le_refl _, List.prefix_rfl, id, id⟩

theorem trans (h : Frame cx cx₁) (h' : Frame cx₁ cx') : Frame cx cx' where
  depth := h'.depth.trans h.depth
  guards := h'.guards.trans h.guards
  config := h'.config.trans h.config
  labels := Nat.le_trans h.labels h'.labels
  events := h.events.trans h'.events
  same := fun hc => h'.same (h.same hc)
  generics := fun hl => h'.generics (h.generics hl)

theorem maxDepth (h : Frame cx cx') : cx'.maxDepth = cx.maxDepth :=
  congrArg ExtractionConfig.maxRecursionDepth h.config

theorem room (h : Frame cx cx') : cx'.room = cx.room := by
  simp only [Context.room, h.depth, h.maxDepth]

theorem log (cx : Context) (e : Event) : Frame cx (cx.log e) :=
  ⟨rfl, rfl, rfl, Nat.le_refl _, ⟨_, (cx.events_log e).symm⟩, id, id⟩

theorem send (cx : Context) (message : Message) (about : Option Concern) :
    Frame cx (cx.send message about) :=
  ⟨rfl, rfl, rfl, Nat.le_refl _, ⟨_, (cx.events_send message about).symm⟩, id, id⟩

theorem enqueue (cx : Context) (work : Work) : Frame cx (cx.enqueue work) :=
  ⟨rfl, rfl, rfl, Nat.le_refl _, ⟨_, (cx.events_enqueue work).symm⟩, id, id⟩

theorem take (cx : Context) (a : Pending) (rest : List Pending) : Frame cx (cx.take a rest) :=
  ⟨rfl, rfl, rfl, Nat.le_refl _, ⟨_, (cx.events_take a rest).symm⟩, id, id⟩

theorem populating (cx : Context) (en : Entity) (l : Label) : Frame cx (cx.populating en l) :=
  ⟨rfl, rfl, rfl, Nat.le_refl _, ⟨_, (cx.events_populating en l).symm⟩, id, id⟩

theorem register (cx : Context) (t : String) : Frame cx (cx.register t) := by
  unfold Context.register
  split
  · exact refl cx
  · split
    · exact send _ _ _
    · exact ⟨rfl, rfl, rfl, Nat.le_refl _, List.prefix_rfl, id, id⟩

theorem introduce (h : cx.same? slot en = none) : Frame cx (cx.introduce slot en).2 where
  depth := by cases slot <;> exact (register _ _).depth
  guards := by cases slot <;> exact (register _ _).guards
  config := by cases slot <;> exact (register _ _).config
  labels := by simp
  events := ⟨_, by rw [Context.events_introduce, List.append_assoc]⟩
  same := by
    intro slot' en' c hc
    have hne : ¬ (slot = slot' ∧ (slot = .value → en.key.render = en'.key.render)) := by
      rintro ⟨rfl, hr⟩
      cases slot <;> simp_all [Context.same?, Context.known?]
    rw [Context.same?_introduce, if_neg hne]
    exact hc
  generics := by
    intro l hl
    cases slot <;> exact (register _ _).generics hl

/-- A deed leaves depth and guards as they were. -/
theorem deed (h : Deed cx cx') : Frame cx cx' := by
  cases h with
  | fresh | define =>
    exact ⟨rfl, rfl, rfl, Nat.le_succ _, ⟨_, (Context.events_write _ _).symm⟩, id, id⟩
  | emit => exact ⟨rfl, rfl, rfl, Nat.le_refl _, ⟨_, (cx.events_write _).symm⟩, id, id⟩
  | missingType => exact ⟨rfl, rfl, rfl, Nat.le_refl _, ⟨_, (cx.events_missingType _).symm⟩, id, id⟩
  | setAssemblyFile => exact ⟨rfl, rfl, rfl, Nat.le_refl _, List.prefix_rfl, id, id⟩
  | openGenerics =>
    exact ⟨rfl, rfl, rfl, Nat.le_refl _, List.prefix_rfl, id, fun hl =>
      Std.HashSet.mem_insert.2 (.inr hl)⟩
  | note => exact log _ _
  | later => exact enqueue _ _

theorem guarded {key : Key} (h : Frame (cx.openGuard key) cx') : Frame cx cx'.closeGuard where
  depth := h.depth
  guards := congrArg List.tail h.guards
  config := h.config
  labels := h.labels
  events := by
    rw [Context.events_closeGuard]
    exact (List.prefix_append _ _).trans
      (((cx.events_openGuard key).symm ▸ h.events).trans (List.prefix_append _ _))
  same := h.same
  generics := h.generics

theorem nested (h : Frame (cx.enter slot) cx') : Frame cx cx'.leave where
  depth := by simp [Context.leave, h.depth, Context.enter, Context.log]
  guards := h.guards
  config := h.config
  labels := h.labels
  events := (List.prefix_append _ _).trans ((cx.events_enter slot).symm ▸ h.events)
  same := h.same
  generics := h.generics

end Frame

namespace Trail

theorem frame_free (h : Trail w .free o b cx cx') : Frame cx cx' := by
  induction h with
  | refl => exact .refl _
  | stop _ _ ih => exact ih
  | trans _ _ ih ih' => exact ih.trans ih'
  | caught _ _ ih => exact ih
  | deed h => exact .deed h
  | sent | complaint | excused | reported => exact .send _ _ _
  | limit | served => exact .log _ _
  | guarded _ _ _ ih => exact .guarded ih
  | nested _ _ _ ih => exact .nested ih
  | introduced hs _ _ ih => exact (Frame.introduce hs).trans ih
  | deferred => exact .enqueue _ _
  | described _ _ ho _ _ ih => exact (Frame.populating _ _ _).trans (ho ▸ ih)
  | describedGuarded _ _ _ _ _ ho _ _ ih =>
    exact .guarded ((Frame.populating _ _ _).trans (ho ▸ ih))
  | taken _ _ ih => exact (Frame.take _ _ _).trans ((Frame.log _ _).trans ih)
  | takenGuarded _ _ _ _ ih =>
    exact (Frame.take _ _ _).trans (.guarded ((Frame.log _ _).trans ih))

/-- Whatever leaves a trail gives back depth and guards, and only adds to caches, labels and
events. -/
theorem frame (h : Trail w m o b cx cx') : Frame cx cx' :=
  h.free.frame_free

end Trail

end TrapFacts
