import TrapFacts.Engine

/-! Views of a context, and what each operation does to them. -/

namespace TrapFacts

def Event.record? : Event → Option Record
  | .wrote record => some record
  | _ => none

def Event.message? : Event → Option Message
  | .sent message _ => some message
  | _ => none

/-- A description that is owed: an entity and its label. -/
abbrev Due := Entity × Label

def Work.dues : Work → List Due
  | .program _ _ => []
  | .population entity label _ => [(entity, label)]

namespace Context

variable (cx : Context) (e : Event)

def moments : List Moment :=
  cx.journal.toList

def events : List Event :=
  cx.moments.map Moment.event

/-- The descriptions that wait in the queue. -/
def dues : List Due :=
  cx.queue.flatMap (·.work.dues)

def maxDepth : Nat :=
  cx.extractor.config.maxRecursionDepth

/-- How many creations may still be nested. -/
def room : Nat :=
  cx.maxDepth - cx.depth

def moment : Moment :=
  { event := e, depth := cx.depth, guards := cx.guards, pending := cx.queue.length,
    deferred := cx.deferred }

/-- What registering a key says: a warning if the key is known and such warnings are wanted. -/
def collision (rendered : String) : List Event :=
  if cx.extractor.config.checkLabelCollisions && cx.keys.contains rendered then
    [.sent (.warning ("Label collision for " ++ rendered)) none]
  else []

theorem trap_eq : cx.trap = cx.events.filterMap Event.record? := by
  simp only [trap, events, moments, List.filterMap_map]
  rfl

/-- The trap only grows. -/
theorem trap_mono {cx cx' : Context} (h : cx.events <+: cx'.events) : cx.trap <+: cx'.trap := by
  rw [trap_eq, trap_eq]
  exact h.filterMap _

@[simp] theorem moments_log : (cx.log e).moments = cx.moments ++ [cx.moment e] := by
  simp [moments, log, moment]

@[simp] theorem moments_write (r : Record) :
    (cx.write r).moments = cx.moments ++ [cx.moment (.wrote r)] := moments_log _ _

theorem moments_populating (en : Entity) (l : Label) :
    (cx.populating en l).moments = cx.moments ++ [cx.moment (.populating en l)] := moments_log _ _

theorem moments_missingType (n : String) :
    (cx.missingType n).moments = cx.moments ++ [cx.moment (.missing n)] := moments_log _ _

theorem moments_send (m : Message) (about : Option Concern) :
    (cx.send m about).moments = cx.moments ++ [cx.moment (.sent m about)] := moments_log _ _

theorem moments_enqueue (work : Work) : (cx.enqueue work).moments =
    cx.moments ++ [(cx.enqueue work).moment (.queued cx.deferred work.entity?)] := moments_log _ _

theorem moments_take (a : Pending) (rest : List Pending) : (cx.take a rest).moments =
    cx.moments ++ [(cx.take a rest).moment (.taken a.number)] := moments_log _ _

theorem moments_enter (slot : Slot) :
    (cx.enter slot).moments = cx.moments ++ [(cx.enter slot).moment (.making slot)] :=
  moments_log _ _

theorem moments_openGuard (key : Key) : (cx.openGuard key).moments =
    cx.moments ++ [(cx.openGuard key).moment (.wrote (.push key))] := moments_log _ _

theorem moments_closeGuard : cx.closeGuard.moments =
    cx.moments ++ [cx.closeGuard.moment (.wrote .pop)] := moments_log _ _

theorem moments_register (t : String) :
    (cx.register t).moments = cx.moments ++ (cx.collision t).map cx.moment := by
  unfold register collision
  cases cx.extractor.config.checkLabelCollisions <;> cases cx.keys.contains t <;>
    simp [moments, log, send, moment]

theorem moment_register (t : String) : (cx.register t).moment = cx.moment := by
  unfold register
  split
  · rfl
  · split <;> rfl

theorem moment_remember (slot : Slot) (c : Created) :
    (cx.allocate.remember slot c).moment = cx.moment := by
  cases slot <;> rfl

theorem moments_remember (slot : Slot) (c : Created) :
    (cx.allocate.remember slot c).moments = cx.moments := by
  cases slot <;> rfl

theorem collision_remember (slot : Slot) (c : Created) :
    (cx.allocate.remember slot c).collision = cx.collision := by
  cases slot <;> rfl

@[simp] theorem moments_introduce (slot : Slot) (en : Entity) :
    (cx.introduce slot en).2.moments = cx.moments ++
      (cx.collision en.key.render ++ [Event.wrote (.define cx.nextLabel en.key),
        Event.created slot ⟨cx.nextLabel, en⟩]).map cx.moment := by
  let c : Created := ⟨cx.nextLabel, en⟩
  let before := (cx.allocate.remember slot c).register en.key.render
  have hbefore : before.moments = cx.moments ++ (cx.collision en.key.render).map cx.moment := by
    simp only [before, moments_register, moments_remember, collision_remember, moment_remember]
  have hmoment : before.moment = cx.moment := by
    simp only [before, moment_register, moment_remember]
  calc (cx.introduce slot en).2.moments
      = before.moments ++ [before.moment (.wrote (.define c.label en.key))] ++
          [before.moment (.created slot c)] := by
        rw [← moments_write]
        exact moments_log _ _
    _ = _ := by simp [hbefore, hmoment, c]

@[simp] theorem events_log : (cx.log e).events = cx.events ++ [e] := by
  simp [events, moment]

@[simp] theorem events_write (r : Record) : (cx.write r).events = cx.events ++ [.wrote r] :=
  events_log _ _

@[simp] theorem events_send (m : Message) (about : Option Concern) :
    (cx.send m about).events = cx.events ++ [.sent m about] := events_log _ _

@[simp] theorem events_missingType (n : String) :
    (cx.missingType n).events = cx.events ++ [.missing n] := events_log _ _

@[simp] theorem events_allocate : cx.allocate.events = cx.events := rfl

@[simp] theorem events_setAssemblyFile (n file : String) :
    (cx.setAssemblyFile n file).events = cx.events := rfl

@[simp] theorem events_openGenerics (l : Label) : (cx.openGenerics l).events = cx.events := rfl

@[simp] theorem events_enqueue (work : Work) :
    (cx.enqueue work).events = cx.events ++ [.queued cx.deferred work.entity?] :=
  events_log _ _

@[simp] theorem events_take (a : Pending) (rest : List Pending) :
    (cx.take a rest).events = cx.events ++ [.taken a.number] := events_log _ _

@[simp] theorem events_enter (slot : Slot) : (cx.enter slot).events = cx.events ++ [.making slot] :=
  events_log _ _

@[simp] theorem events_leave : cx.leave.events = cx.events := rfl

@[simp] theorem events_openGuard (key : Key) :
    (cx.openGuard key).events = cx.events ++ [.wrote (.push key)] := events_log _ _

@[simp] theorem events_closeGuard : cx.closeGuard.events = cx.events ++ [.wrote .pop] :=
  events_log _ _

@[simp] theorem events_populating (en : Entity) (l : Label) :
    (cx.populating en l).events = cx.events ++ [.populating en l] := events_log _ _

@[simp] theorem events_introduce (slot : Slot) (en : Entity) :
    (cx.introduce slot en).2.events = cx.events ++ cx.collision en.key.render ++
      [.wrote (.define cx.nextLabel en.key), .created slot ⟨cx.nextLabel, en⟩] := by
  simp [events, moment, Function.comp_def]

theorem eq_of_mem_collision {t : String} {e : Event} (h : e ∈ cx.collision t) :
    e = .sent (.warning ("Label collision for " ++ t)) none := by
  unfold collision at h
  split at h <;> simp_all

/-- A collision says one thing alone: a warning about nobody. -/
theorem sent_of_mem_collision {t : String} (h : e ∈ cx.collision t) : ∃ m, e = .sent m none :=
  ⟨_, cx.eq_of_mem_collision h⟩

/-- An introduction tells of the new entity, and may warn. -/
theorem mem_events_introduce {cx : Context} {e : Event} {slot : Slot} {en : Entity}
    (h : e ∈ (cx.introduce slot en).2.events) :
    e ∈ cx.events ∨ (∃ message, e = .sent message none) ∨
      e = .wrote (.define cx.nextLabel en.key) ∨ e = .created slot ⟨cx.nextLabel, en⟩ := by
  rw [events_introduce, List.append_assoc, List.mem_append, List.mem_append] at h
  rcases h with h | h | h
  · exact .inl h
  · exact .inr (.inl (cx.sent_of_mem_collision e h))
  · exact .inr (.inr (by simpa using h))

theorem trap_event {cx cx' : Context} {e : Event} (h : cx'.events = cx.events ++ [e]) :
    cx'.trap = cx.trap ++ e.record?.toList := by
  rw [trap_eq, trap_eq, h, List.filterMap_append]
  cases hr : e.record? <;> simp [hr]

@[simp] theorem trap_write (r : Record) : (cx.write r).trap = cx.trap ++ [r] :=
  trap_event (cx.events_write r)

/-- A new entity is defined under the next label. -/
theorem trap_introduce (slot : Slot) (en : Entity) :
    (cx.introduce slot en).2.trap = cx.trap ++ [.define cx.nextLabel en.key] := by
  have hcollision : (cx.collision en.key.render).filterMap Event.record? = [] := by
    refine List.filterMap_eq_nil_iff.2 fun e he => ?_
    obtain ⟨message, rfl⟩ := cx.sent_of_mem_collision _ he
    rfl
  simp [trap_eq, hcollision, Event.record?]

theorem sent_eq : cx.sent = cx.events.filterMap Event.message? := by
  simp only [sent, events, moments, List.filterMap_map]
  rfl

theorem sent_event {cx cx' : Context} {e : Event} (h : cx'.events = cx.events ++ [e]) :
    cx'.sent = cx.sent ++ e.message?.toList := by
  rw [sent_eq, sent_eq, h, List.filterMap_append]
  cases hm : e.message? <;> simp [hm]

theorem sent_quiet {cx cx' : Context} {e : Event} (h : cx'.events = cx.events ++ [e])
    (hm : e.message? = none) : cx'.sent = cx.sent := by
  rw [sent_event h, hm]
  simp

theorem sent_send (message : Message) (about : Option Concern) :
    (cx.send message about).sent = cx.sent ++ [message] :=
  sent_event (cx.events_send message about)

theorem sent_closeGuard : cx.closeGuard.sent = cx.sent :=
  sent_quiet cx.events_closeGuard rfl

theorem labels_register (t : String) : (cx.register t).labels = cx.labels := by
  unfold register
  split
  · rfl
  · split <;> rfl

theorem records_register (t : String) : (cx.register t).records = cx.records := by
  unfold register
  split
  · rfl
  · split <;> rfl

theorem queue_register (t : String) : (cx.register t).queue = cx.queue := by
  unfold register
  split
  · rfl
  · split <;> rfl

@[simp] theorem labels_introduce (slot : Slot) (en : Entity) :
    (cx.introduce slot en).2.labels = cx.labels + 1 := by
  cases slot <;> exact labels_register _ _

@[simp] theorem records_introduce (slot : Slot) (en : Entity) :
    (cx.introduce slot en).2.records = cx.records + 1 := by
  cases slot <;> exact congrArg (· + 1) (records_register _ _)

@[simp] theorem queue_introduce (slot : Slot) (en : Entity) :
    (cx.introduce slot en).2.queue = cx.queue := by
  cases slot <;> exact queue_register _ _

theorem deferred_register (t : String) : (cx.register t).deferred = cx.deferred := by
  unfold register
  split
  · rfl
  · split <;> rfl

@[simp] theorem deferred_introduce (slot : Slot) (en : Entity) :
    (cx.introduce slot en).2.deferred = cx.deferred := by
  cases slot <;> exact deferred_register _ _

theorem guards_register (t : String) : (cx.register t).guards = cx.guards := by
  unfold register
  split
  · rfl
  · split <;> rfl

@[simp] theorem guards_introduce (slot : Slot) (en : Entity) :
    (cx.introduce slot en).2.guards = cx.guards := by
  cases slot <;> exact guards_register _ _

theorem generics_register (t : String) : (cx.register t).generics = cx.generics := by
  unfold register
  split
  · rfl
  · split <;> rfl

@[simp] theorem generics_introduce (slot : Slot) (en : Entity) :
    (cx.introduce slot en).2.generics = cx.generics := by
  cases slot <;> exact generics_register _ _

theorem same?_register (t : String) : (cx.register t).same? = cx.same? := by
  unfold register
  split
  · rfl
  · split <;> rfl

/-- What is remembered is found, and nothing else is found otherwise than before. -/
theorem same?_remember (slot slot' : Slot) (c : Created) (en : Entity) :
    (cx.remember slot c).same? slot' en =
      if slot = slot' ∧ (slot = .value → c.entity.key.render = en.key.render) then
        some ⟨c.label, if slot = .value then en else c.entity⟩
      else cx.same? slot' en := by
  cases slot <;> cases slot' <;> simp [same?, known?, remember, Std.HashMap.getElem?_insert]
  split <;> simp_all

/-- A new entity is what its slot has from then on; nothing else changes. -/
theorem same?_introduce (slot slot' : Slot) (en en' : Entity) :
    (cx.introduce slot en).2.same? slot' en' =
      if slot = slot' ∧ (slot = .value → en.key.render = en'.key.render) then
        some ⟨cx.nextLabel, if slot = .value then en' else en⟩
      else cx.same? slot' en' := by
  let remembered := cx.allocate.remember slot ⟨cx.nextLabel, en⟩
  calc (cx.introduce slot en).2.same? slot' en'
      = (remembered.register en.key.render).same? slot' en' := rfl
    _ = remembered.same? slot' en' := by rw [same?_register]
    _ = _ := same?_remember _ _ _ _ _

end Context

end TrapFacts
