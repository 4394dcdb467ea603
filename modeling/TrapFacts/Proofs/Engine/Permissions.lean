import TrapFacts.Proofs.Engine.Recovery
import TrapFacts.Proofs.Engine.Run
import TrapFacts.Proofs.Engine.Turns

/-! Programs that keep to permissions: how deep they may nest, how they may fail, what they say. -/

namespace TrapFacts

variable {α β : Type} {w : World} {cx cx₁ cx' : Context} {e : Event} {en : Entity} {l : Label}
  {body : Prog Unit} {slot : Slot} {run : Runner} {n : Nat}

namespace Prog

/-- A program that follows permitted recipes alone and fails in permitted ways alone. What it
returns is good. It opens no guards itself, and it neither queues nor drains. -/
def Keeps {α : Type} (may : Recipe → Prop) (fails : Failure → Prop) :
    Prog α → (good : α → Prop) → Prop
  | .pure a, good => good a
  | .fail e, _ => fails e
  | .fresh k, good => ∀ l, (k l).Keeps may fails good
  | .define _ k, good => ∀ l, (k l).Keeps may fails good
  | .emit _ k, good => k.Keeps may fails good
  | .send _ _, _ => False
  | .modelError symbol text k, good =>
    fails (.internal text symbol none) ∧ k.Keeps may fails good
  | .missingType _ k, good => k.Keeps may fails good
  | .setAssemblyFile _ _ k, good => k.Keeps may fails good
  | .assemblyFile _ k, good => ∀ file, (k file).Keeps may fails good
  | .openGenerics _ k, good => ∀ new, (k new).Keeps may fails good
  | .snapshot k, good => ∀ s, (k s).Keeps may fails good
  | .note _ k, good => k.Keeps may fails good
  | .guarded _ _ _, _ => False
  | .attempt _ _ body k, good => body.Keeps may fails (fun _ => True) ∧ k.Keeps may fails good
  | .catch _ _, _ => False
  | .later _ _, _ => False
  | .drain _, _ => False
  | .create _ _ _ _, _ => False
  | .summon recipe k, good => may recipe ∧ ∀ c, (k c).Keeps may fails good

variable {may may' : Recipe → Prop} {fails : Failure → Prop} {good good' : α → Prop}
  {p : Prog α}

theorem Keeps.bind {f : α → Prog β} {good' : β → Prop} (h : p.Keeps may fails good)
    (hf : ∀ a, good a → (f a).Keeps may fails good') : (p.bind f).Keeps may fails good' := by
  induction p with
  | pure a => exact hf a h
  | fail => exact h
  | emit _ _ ih | missingType _ _ ih | setAssemblyFile _ _ _ ih | note _ _ ih => exact ih h hf
  | fresh _ ih | define _ _ ih | assemblyFile _ _ ih | openGenerics _ _ ih | snapshot _ ih =>
    exact fun a => ih a (h a) hf
  | modelError _ _ _ ih | attempt _ _ _ _ _ ih => exact ⟨h.1, ih h.2 hf⟩
  | summon _ _ ih => exact ⟨h.1, fun c => ih c (h.2 c) hf⟩
  | send | guarded | «catch» | later | drain | create => exact h.elim

theorem Keeps.mono (h : p.Keeps may fails good) (hm : ∀ r, may r → may' r)
    (hg : ∀ a, good a → good' a) : p.Keeps may' fails good' := by
  induction p with
  | pure a => exact hg a h
  | fail => exact h
  | emit _ _ ih | missingType _ _ ih | setAssemblyFile _ _ _ ih | note _ _ ih => exact ih h hg
  | fresh _ ih | define _ _ ih | assemblyFile _ _ ih | openGenerics _ _ ih | snapshot _ ih =>
    exact fun a => ih a (h a) hg
  | modelError _ _ _ ih => exact ⟨h.1, ih h.2 hg⟩
  | attempt _ _ _ _ ihb ih => exact ⟨ihb h.1 fun _ h => h, ih h.2 hg⟩
  | summon _ _ ih => exact ⟨hm _ h.1, fun c => ih c (h.2 c) hg⟩
  | send | guarded | «catch» | later | drain | create => exact h.elim

/-- A lookup that fails does so in a permitted way. -/
theorem Keeps.read {r : Except Failure β} {f : β → Prog α} (he : ∀ e, r = .error e → fails e)
    (h : ∀ b, r = .ok b → (f b).Keeps may fails good) :
    ((Prog.ofExcept r).bind f).Keeps may fails good := by
  cases r with
  | ok b => exact h b rfl
  | error e => exact he e rfl

theorem Keeps.each {items : List β} {body : β → Prog Unit}
    (h : ∀ b ∈ items, (body b).Keeps may fails fun _ => True) :
    (each items body).Keeps may fails fun _ => True := by
  induction items with
  | nil => trivial
  | cons b items ih =>
    exact (h b List.mem_cons_self).bind fun _ _ => ih fun b hb => h b (List.mem_cons_of_mem _ hb)

theorem Keeps.collect {items : List β} {body : β → Prog α}
    (h : ∀ b ∈ items, (body b).Keeps may fails fun _ => True) :
    (collect items body).Keeps may fails fun _ => True := by
  induction items with
  | nil => trivial
  | cons b items ih =>
    refine (h b List.mem_cons_self).bind fun a _ => ?_
    exact (ih fun b hb => h b (List.mem_cons_of_mem _ hb)).bind fun as _ => trivial

end Prog

def Context.inside (cx : Context) : Bool :=
  !cx.guards.isEmpty

theorem Frame.inside (h : Frame cx cx') : cx'.inside = cx.inside := by
  rw [Context.inside, h.guards, Context.inside]

def Event.isObject : Event → Bool
  | .created (.object _ _) _ => true
  | _ => false

def Context.made (cx : Context) : Nat :=
  cx.events.countP Event.isObject

/-- How many objects an entity is made of in a slot. -/
def Slot.objects : Slot → Nat
  | .value => 0
  | .object _ _ => 1

/-- What was made is not unmade. -/
theorem Frame.made (h : Frame cx cx') : cx.made ≤ cx'.made :=
  h.events.sublist.countP_le

theorem Context.made_event (he : cx'.events = cx.events ++ [e]) (hn : e.isObject = false) :
    cx'.made = cx.made := by
  simp [made, he, hn]

theorem Context.made_introduce (cx : Context) (slot : Slot) (en : Entity) :
    (cx.introduce slot en).2.made = cx.made + slot.objects := by
  have hcollision : (cx.collision en.key.render).countP Event.isObject = 0 := by
    refine List.countP_eq_zero.2 fun e he => ?_
    rw [cx.eq_of_mem_collision he]
    exact Bool.false_ne_true
  rw [made, events_introduce, List.countP_append, List.countP_append, hcollision, made]
  cases slot <;> simp [Event.isObject, Slot.objects]

/-- Whether a guard is open while an entity is described, its own or one from before. -/
def World.covers (w : World) (inside : Bool) (en : Entity) : Bool :=
  inside || en.behavior = .pushesScope && !w.scope.isAssembly

/-- What the programs of a world may do. -/
structure Permissions (w : World) where
  /-- The room at the outset, where queued descriptions run. -/
  room : Nat
  /-- What each object that got its entity is worth, in levels. -/
  bonus : Nat
  /-- Which recipes may be followed, inside a guard or outside, with credit for so many levels. -/
  may : (inside : Bool) → (credit : Nat) → Recipe → Prop
  fails : Failure → Prop
  sends : Message → Prop
  makes : Slot → Entity → Prop
  /-- Whether the limit may be met when so many objects have entities. -/
  limits : Nat → Prop

namespace Permissions

variable (ps : Permissions w)

/-- The room that is left, and what the objects so far are worth. -/
def credit (cx : Context) : Nat :=
  cx.room + ps.bonus * cx.made

/-- What may be made in a context. -/
def Grants (cx : Context) : Recipe → Prop :=
  ps.may cx.inside (ps.credit cx)

/-- What is described by a program that keeps to the permissions, in the entity's own guard if it
has one. The place for that guard is made outside of it. -/
structure Describes (inside : Bool) (credit : Nat) (en : Entity) (body : Prog Unit) : Prop where
  place : en.behavior = .pushesScope → ps.may inside credit (.location en.reportingLocation?)
  body : body.Keeps (ps.may (w.covers inside en) credit) ps.fails fun _ => True

/-- A new entity that is described within the permissions, now or when it leaves the queue. -/
def Admits (slot : Slot) (inside : Bool) (credit : Nat) (en : Entity) (body : Label → Prog Unit) :
    Prop :=
  ps.makes slot en ∧ ∀ l,
    if (en.behavior.plan inside).deferred then ps.Describes false ps.room en (body l)
    else ps.Describes inside credit en (body l)

/-- Permissions by which the entities of the world are made and described. -/
structure Holds : Prop where
  minor : ∀ {e}, ps.fails e → e.isFatal = false
  grows : ∀ {inside credit credit' recipe}, credit ≤ credit' → ps.may inside credit recipe →
    ps.may inside credit' recipe
  spare : ∀ {inside made recipe}, ps.may inside (ps.bonus * made) recipe → ps.limits made
  factory : ∀ {inside credit recipe}, ps.may inside (credit + 1) recipe →
    (w.catalog recipe).factory.Keeps (ps.may inside credit) ps.fails fun en =>
      ps.Admits (w.catalog recipe).slot inside
        (credit + ps.bonus * (w.catalog recipe).slot.objects) en ((w.catalog recipe).body en)
  report : ∀ {e}, ps.fails e → ∀ node symbol, ps.sends (w.model.failureMessage e node symbol)
  collision : ∀ key : String, ps.sends (.warning ("Label collision for " ++ key))
  free : ∀ {slot en}, ps.makes slot en → en.behavior ≠ .needsScope

/-- What may happen before the limit is met. -/
def Allows : Event → Prop
  | .sent message _ => ps.sends message
  | .created slot c => ps.makes slot c.entity
  | .queued _ entity => entity.isSome = true ∧ w.scope.isAssembly = false
  | .limitHit => False
  | _ => True

/-- A context in which all went by the permissions so far. -/
structure Kept (cx : Context) : Prop where
  events : ∀ e ∈ cx.events, ps.Allows e
  queue : ∀ a ∈ cx.queue, ∃ en l body, a.work = .population en l body ∧
    ps.Describes false ps.room en body
  bare : w.scope.isAssembly = true → cx.guards = []
  /-- What is known was made. -/
  same : ∀ {slot en c}, cx.same? slot en = some c →
    ∃ made, ps.makes slot made ∧ (slot = .value → made.key.render = en.key.render)

/-- The limit was met where it may be, and guards were closed since. -/
def Met (cx : Context) : Prop :=
  ∃ before closing, cx.events = before ++ .limitHit :: closing ∧ (∀ e ∈ before, ps.Allows e) ∧
    ps.limits (before.countP Event.isObject) ∧ ∀ e ∈ closing, e = .wrote .pop

/-- How a program that keeps to the permissions can end. -/
inductive Ends (good : α → Prop) (cx : Context) : Reply α → Prop
  | done {a : α} {cx' : Context} : ps.Kept cx' → Frame cx cx' → good a → Ends good cx ⟨.done a, cx'⟩
  | failed {e : Failure} {cx' : Context} : ps.Kept cx' → Frame cx cx' → ps.fails e →
      Ends good cx ⟨.failed e, cx'⟩
  | met {cx' : Context} : ps.Met cx' → Ends good cx ⟨.failed (.recursionLimit cx.maxDepth), cx'⟩

/-- A way to run programs, with room for so many levels, in which all goes by the permissions. -/
structure RunsWithin (n : Nat) (run : Runner) : Prop where
  ends : ∀ {α : Type} {p : Prog α} {good : α → Prop} {cx : Context},
    p.Keeps (ps.Grants cx) ps.fails good → cx.room = n → ps.Kept cx →
      ps.Ends good cx (run α p cx)

variable {ps}

/-- Credit is not lost by going on. -/
theorem credit_le (h : Frame cx cx') : ps.credit cx ≤ ps.credit cx' := by
  have hroom : cx'.room = cx.room := h.room
  have hmade : ps.bonus * cx.made ≤ ps.bonus * cx'.made := Nat.mul_le_mul_left _ h.made
  unfold credit
  omega

theorem credit_introduce (hf : Frame cx (cx.introduce slot en).2) :
    ps.credit (cx.introduce slot en).2 = ps.credit cx + ps.bonus * slot.objects := by
  rw [credit, hf.room, cx.made_introduce, Nat.mul_add, ← Nat.add_assoc, credit]

theorem credit_openGuard (key : Key) : ps.credit (cx.openGuard key) = ps.credit cx := by
  rw [credit, Context.made_event (cx.events_openGuard key) rfl]
  rfl

/-- One level deeper there is one less to spend. -/
theorem credit_enter (hr : cx.room = n + 1) (slot : Slot) :
    ps.credit cx = ps.credit (cx.enter slot) + 1 := by
  rw [credit, credit, room_enter hr, Context.made_event (cx.events_enter slot) rfl, hr]
  omega

namespace Holds

variable (hh : ps.Holds)

include hh

/-- What is granted stays so. -/
theorem grants (hf : Frame cx cx') {recipe : Recipe} (hm : ps.Grants cx recipe) :
    ps.Grants cx' recipe := by
  unfold Grants
  rw [hf.inside]
  exact hh.grows (credit_le hf) hm

/-- What a program may do it may still do later. -/
theorem along {p : Prog α} {good : α → Prop} (hf : Frame cx cx')
    (hp : p.Keeps (ps.Grants cx) ps.fails good) : p.Keeps (ps.Grants cx') ps.fails good :=
  hp.mono (fun _ => hh.grants hf) fun _ h => h

theorem describes {inside : Bool} {credit credit' : Nat} (hc : credit ≤ credit')
    (hd : ps.Describes inside credit en body) : ps.Describes inside credit' en body :=
  ⟨fun hb => hh.grows hc (hd.place hb), hd.body.mono (fun _ => hh.grows hc) fun _ h => h⟩

theorem admits {inside : Bool} {credit credit' : Nat} {body : Label → Prog Unit}
    (hc : credit ≤ credit') (ha : ps.Admits slot inside credit en body) :
    ps.Admits slot inside credit' en body := by
  refine ⟨ha.1, fun l => ?_⟩
  have hd := ha.2 l
  split
  · next hlater => rwa [if_pos hlater] at hd
  · next hnow =>
    rw [if_neg hnow] at hd
    exact hh.describes hc hd

end Holds

/-- Nothing happened yet that is not permitted. -/
theorem kept_fresh (x : Extractor) : ps.Kept { extractor := x } :=
  ⟨by simp [Context.events, Context.moments], by simp, fun _ => rfl, fun {slot _ _} hs => by
    cases slot <;> simp [Context.same?, Context.known?] at hs⟩

namespace Kept

theorem event (h : ps.Kept cx) (he : cx'.events = cx.events ++ [e]) (ha : ps.Allows e)
    (hq : cx'.queue = cx.queue) (hg : w.scope.isAssembly = true → cx'.guards = [])
    (hs : cx'.same? = cx.same?) : ps.Kept cx' where
  events e' he' := by
    rw [he, List.mem_append, List.mem_singleton] at he'
    rcases he' with he' | rfl
    · exact h.events e' he'
    · exact ha
  queue := hq ▸ h.queue
  bare := hg
  same hsame := h.same (hs ▸ hsame)

theorem log (h : ps.Kept cx) (ha : ps.Allows e) : ps.Kept (cx.log e) :=
  h.event (cx.events_log e) ha rfl h.bare rfl

theorem send {message : Message} (h : ps.Kept cx) (hm : ps.sends message) (about : Option Concern) :
    ps.Kept (cx.send message about) :=
  h.event (cx.events_send message about) hm rfl h.bare rfl

theorem populating (h : ps.Kept cx) (en : Entity) (l : Label) : ps.Kept (cx.populating en l) :=
  h.event (cx.events_populating en l) trivial rfl h.bare rfl

theorem openGuard (h : ps.Kept cx) (hs : w.scope.isAssembly = false) (key : Key) :
    ps.Kept (cx.openGuard key) := by
  refine h.event (cx.events_openGuard key) trivial rfl (fun ha => ?_) rfl
  rw [hs] at ha
  cases ha

theorem closeGuard (h : ps.Kept cx) : ps.Kept cx.closeGuard :=
  h.event cx.events_closeGuard trivial rfl (fun ha => congrArg List.tail (h.bare ha)) rfl

theorem enter (h : ps.Kept cx) (slot : Slot) : ps.Kept (cx.enter slot) :=
  h.event (cx.events_enter slot) trivial rfl h.bare rfl

theorem leave (h : ps.Kept cx) : ps.Kept cx.leave :=
  ⟨h.events, h.queue, h.bare, h.same⟩

/-- What waits comes from inside a guard, so not from an assembly. -/
theorem enqueue (h : ps.Kept cx) (hb : ps.Describes false ps.room en body)
    (hg : cx.guards ≠ []) : ps.Kept (cx.enqueue (.population en l body)) where
  events e he := by
    rw [cx.events_enqueue, List.mem_append, List.mem_singleton] at he
    rcases he with he | rfl
    · exact h.events e he
    · exact ⟨rfl, by simpa using mt h.bare hg⟩
  queue a ha := by
    rcases List.mem_append.1 ha with ha | ha
    · exact h.queue a ha
    · exact ⟨en, l, body, congrArg Pending.work (List.mem_singleton.1 ha), hb⟩
  bare := h.bare
  same := h.same

theorem take {a : Pending} {rest : List Pending} (h : ps.Kept cx) (hq : cx.queue = a :: rest) :
    ps.Kept (cx.take a rest) where
  events e he := by
    rw [cx.events_take, List.mem_append, List.mem_singleton] at he
    rcases he with he | rfl
    · exact h.events e he
    · trivial
  queue b hb := h.queue b (hq ▸ List.mem_cons_of_mem _ hb)
  bare := h.bare
  same := h.same

theorem introduce (h : ps.Kept cx) (hh : ps.Holds) (hm : ps.makes slot en) :
    ps.Kept (cx.introduce slot en).2 where
  events e he := by
    rw [Context.events_introduce, List.append_assoc, List.mem_append, List.mem_append] at he
    rcases he with he | he | he
    · exact h.events e he
    · rw [cx.eq_of_mem_collision he]
      exact hh.collision _
    · simp only [List.mem_cons, List.not_mem_nil, or_false] at he
      rcases he with rfl | rfl
      · trivial
      · exact hm
  queue := by
    rw [cx.queue_introduce slot en]
    exact h.queue
  bare hs := (cx.guards_introduce slot en).trans (h.bare hs)
  same {slot' en' c} hs := by
    rw [Context.same?_introduce] at hs
    split at hs
    · next heq =>
      obtain ⟨rfl, hr⟩ := heq
      exact ⟨en, hm, hr⟩
    · exact h.same hs

/-- An operation of a program that queues nothing. -/
theorem deed (h : ps.Kept cx) (hd : Deed cx cx') (hq : cx'.queue = cx.queue) : ps.Kept cx' := by
  cases hd with
  | fresh | define | emit => exact h.event (Context.events_write _ _) trivial rfl h.bare rfl
  | missingType => exact h.event (cx.events_missingType _) trivial rfl h.bare rfl
  | setAssemblyFile | openGenerics => exact ⟨h.events, h.queue, h.bare, h.same⟩
  | note => exact h.log trivial
  | later body => simp [Context.enqueue, Context.log] at hq

end Kept

namespace Met

theorem closeGuard (h : ps.Met cx) : ps.Met cx.closeGuard := by
  obtain ⟨before, closing, he, hbefore, hlimits, hclosing⟩ := h
  refine ⟨before, closing ++ [.wrote .pop], by simp [he], hbefore, hlimits, fun e hmem => ?_⟩
  rcases List.mem_append.1 hmem with hmem | hmem
  · exact hclosing e hmem
  · exact List.mem_singleton.1 hmem

end Met

namespace Ends

variable {good : α → Prop} {r : Reply α}

theorem after (hf : Frame cx cx₁) (h : ps.Ends good cx₁ r) : ps.Ends good cx r := by
  cases h with
  | done hk hf' hg => exact .done hk (hf.trans hf') hg
  | failed hk hf' he => exact .failed hk (hf.trans hf') he
  | met hm => exact hf.maxDepth ▸ .met hm

/-- An operation of a program that queues nothing, and the rest of the program. -/
theorem deed (hh : ps.Holds) (hd : Deed cx cx₁) (hq : cx₁.queue = cx.queue) (hk : ps.Kept cx)
    {p : Prog α} (hp : p.Keeps (ps.Grants cx) ps.fails good) (hr : cx.room = n)
    (h : p.Keeps (ps.Grants cx₁) ps.fails good → cx₁.room = n → ps.Kept cx₁ →
      ps.Ends good cx₁ r) : ps.Ends good cx r := by
  have hf : Frame cx cx₁ := .deed hd
  exact (h (hh.along hf hp) (hf.room.trans hr) (hk.deed hd hq)).after hf

/-- What follows starts from a context where the permissions were kept. -/
theorem andThen {good' : β → Prop} {next : α → Context → Reply β} (h : ps.Ends good cx r)
    (hn : ∀ a cx₁, ps.Kept cx₁ → Frame cx cx₁ → good a → ps.Ends good' cx₁ (next a cx₁)) :
    ps.Ends good' cx (r.andThen next) := by
  cases h with
  | done hk hf hg => exact (hn _ _ hk hf hg).after hf
  | failed hk hf he => exact .failed hk hf he
  | met hm => exact .met hm

end Ends

section

variable (hh : ps.Holds)

include hh

/-- Recovery turns a failure into a report, which is permitted. -/
theorem recover_ends {good : Unit → Prop} {r : Reply Unit} (about : Option Concern)
    (node : Option NodeId) (symbol : Option SymbolId) (h : ps.Ends good cx r) :
    ps.Ends (fun _ => True) cx (w.recover about node symbol r) := by
  cases h with
  | done hk hf _ => exact .done hk hf trivial
  | @failed e cx' hk hf he =>
    simp only [World.recover, hh.minor he]
    exact .done (hk.send (hh.report he node symbol) about) (hf.trans (.send _ _ _)) trivial
  | met hm => exact .met hm

omit hh in
theorem guarding_ends {key : Key} {action : Context → Reply Unit}
    (hplain : w.scope.isAssembly = true → ps.Ends (fun _ => True) cx (action cx))
    (hguarded : w.scope.isAssembly = false →
      ps.Ends (fun _ => True) (cx.openGuard key) (action (cx.openGuard key))) :
    ps.Ends (fun _ => True) cx (w.guarding key action cx) := by
  unfold World.guarding
  split
  · next hs => exact hplain hs
  · next hs =>
    have hr := hguarded (by simpa using hs)
    dsimp only
    generalize action (cx.openGuard key) = r at hr
    cases hr with
    | done hk hf _ => exact .done hk.closeGuard (.guarded hf) trivial
    | failed hk hf he => exact .failed hk.closeGuard (.guarded hf) he
    | met hm => exact .met hm.closeGuard

variable (hrun : ps.RunsWithin n run)

include hrun

theorem describe_ends (hk : ps.Kept cx) (hr : cx.room = n)
    (hb : body.Keeps (ps.Grants cx) ps.fails fun _ => True) :
    ps.Ends (fun _ => True) cx (w.describe run en l body cx) := by
  have hf : Frame cx (cx.populating en l) := .populating cx en l
  have hbody : ps.Ends (fun _ => True) (cx.populating en l)
      (run Unit body (cx.populating en l)) :=
    hrun.ends (hh.along hf hb) hr (hk.populating en l)
  exact (recover_ends hh _ _ _ hbody).after hf

theorem populate_ends (hk : ps.Kept cx) (hr : cx.room = n)
    (hd : ps.Describes cx.inside (ps.credit cx) en body) :
    ps.Ends (fun _ => True) cx (w.populate run en l body cx) := by
  unfold World.populate
  split
  · next hg =>
    have hb : en.behavior = .pushesScope := World.plan_duplicationGuard.1 hg
    have hplace : (Prog.entity (.location en.reportingLocation?)).Keeps (ps.Grants cx) ps.fails
        fun _ => True := ⟨hd.place hb, fun _ => trivial⟩
    refine (hrun.ends hplace hr hk).andThen fun place cx₁ hk₁ hf _ => ?_
    have hr₁ : cx₁.room = n := hf.room.trans hr
    have hbody := (hh.describes (credit_le hf) hd).body
    rw [← hf.inside] at hbody
    refine guarding_ends (fun hs => ?_) fun hs => ?_
    · have hcovers : w.covers cx₁.inside en = cx₁.inside := by simp [World.covers, hs]
      rw [hcovers] at hbody
      exact describe_ends hh hrun hk₁ hr₁ hbody
    · let key : Key := .label l (.ofLabel place.label)
      have hopen : (cx₁.openGuard key).inside = true := rfl
      have hcovers : w.covers cx₁.inside en = (cx₁.openGuard key).inside := by
        simp [World.covers, hb, hs, hopen]
      rw [hcovers, ← credit_openGuard key] at hbody
      exact describe_ends hh hrun (hk₁.openGuard hs _) hr₁ hbody
  · next hg =>
    have hb : en.behavior ≠ .pushesScope := mt World.plan_duplicationGuard.2 hg
    have hbody := hd.body
    rw [show w.covers cx.inside en = cx.inside by simp [World.covers, hb]] at hbody
    exact describe_ends hh hrun hk hr hbody

/-- A new entity is described now, or within the permissions later. -/
theorem schedule_ends (hk : ps.Kept cx) (hr : cx.room = n) (hb : en.behavior ≠ .needsScope)
    (hd : if (en.behavior.plan cx.inside).deferred then ps.Describes false ps.room en body
      else ps.Describes cx.inside (ps.credit cx) en body) :
    ps.Ends (fun _ => True) cx (w.schedule run en l body cx) := by
  have hplan : (!cx.guards.isEmpty) = cx.inside := rfl
  have hcomplain : w.complain (en.behavior.plan cx.inside) en l cx = cx := by
    unfold World.complain
    rw [if_neg]
    exact fun hm => hb (World.plan_missingGuard.1 hm).2
  unfold World.schedule
  dsimp only
  rw [hplan, hcomplain]
  split at hd
  · next hnow =>
    have hopen : cx.guards ≠ [] := by
      have hinside := (World.plan_deferred.1 hnow).1
      rintro hg
      simp [Context.inside, hg] at hinside
    rw [if_pos hnow]
    exact .done (hk.enqueue hd hopen) (.enqueue cx _) trivial
  · next hnow =>
    rw [if_neg hnow]
    exact recover_ends hh _ _ _ (populate_ends hh hrun hk hr hd)

theorem settle_ends {body : Entity → Label → Prog Unit} (hk : ps.Kept cx) (hr : cx.room = n)
    (ha : ps.Admits slot cx.inside (ps.credit cx + ps.bonus * slot.objects) en (body en)) :
    ps.Ends (fun _ => True) cx (w.settle run slot body en cx) := by
  unfold World.settle
  split
  · exact .done hk (.refl cx) trivial
  · next hs =>
    have hf : Frame cx (cx.introduce slot en).2 := .introduce hs
    have hk₁ := hk.introduce hh ha.1
    dsimp only
    split
    · have hd := ha.2 cx.nextLabel
      rw [← hf.inside, ← credit_introduce hf] at hd
      have hscheduled : ps.Ends (fun _ => True) (cx.introduce slot en).2
          (w.schedule run en cx.nextLabel (body en cx.nextLabel) (cx.introduce slot en).2) :=
        schedule_ends hh hrun hk₁ (hf.room.trans hr) (hh.free ha.1) hd
      refine (hscheduled.andThen ?_).after hf
      exact fun _ cx₂ hk₂ _ _ => .done hk₂ (.refl cx₂) trivial
    · exact .done hk₁ hf trivial

/-- A creation that is granted keeps the permissions, one level deeper. -/
theorem build_ends {recipe : Recipe} (hk : ps.Kept cx) (hr : cx.room = n + 1)
    (hm : ps.Grants cx recipe) :
    let c := w.catalog recipe
    ps.Ends (fun _ => True) cx (w.build run c.slot c.factory c.body cx) := by
  intro c
  have hroom : (cx.enter c.slot).room = n := room_enter hr
  have hmade : ps.Ends (fun _ => True) (cx.enter c.slot)
      ((run Entity c.factory (cx.enter c.slot)).andThen (w.settle run c.slot c.body)) := by
    unfold Grants at hm
    rw [credit_enter hr c.slot] at hm
    refine (hrun.ends (hh.factory hm) hroom (hk.enter _)).andThen fun en cx₁ hk₁ hf ha => ?_
    refine settle_ends hh hrun hk₁ (hf.room.trans hroom) ?_
    rw [hf.inside]
    exact hh.admits (Nat.add_le_add_right (credit_le hf) _) ha
  unfold World.build
  dsimp only
  generalize (run Entity c.factory (cx.enter c.slot)).andThen _ = r at hmade
  cases hmade with
  | done hk hf _ => exact .done hk.leave (.nested hf) trivial
  | failed hk hf he => exact .failed hk.leave (.nested hf) he
  | met hm => exact .met hm

/-- Work off the queue starts anew, with all the room there is. -/
theorem resume_ends {a : Pending} (hk : ps.Kept cx) (hr : cx.room = n) (hg : cx.guards = [])
    (ha : ∃ en l body, a.work = .population en l body ∧ ps.Describes false n en body) :
    ps.Ends (fun _ => True) cx (w.resume run a cx) := by
  obtain ⟨number, work⟩ := a
  obtain ⟨en, l, body, rfl, hd⟩ := ha
  have hoff : (cx.log (.began number)).inside = false := by
    rw [Context.inside, show (cx.log (.began number)).guards = [] from hg]
    rfl
  have hroom : n ≤ ps.credit (cx.log (.began number)) := hr ▸ Nat.le_add_right _ _
  have hd := hh.describes hroom hd
  rw [← hoff] at hd
  have hpopulated := populate_ends hh hrun (l := l) (hk.log (e := .began number) trivial) hr hd
  exact (recover_ends hh _ _ _ hpopulated).after (.log cx _)

end

variable {deeper : Option Runner} {drain : Context → Reply Unit}

/-- Where no level is left to make an entity on, the limit may be met. -/
theorem obtain?_ends {recipe : Recipe} (hh : ps.Holds) (hsome : deeper.isSome ↔ 0 < n)
    (hrun : ∀ run, deeper = some run → ps.RunsWithin (n - 1) run) (hk : ps.Kept cx)
    (hr : cx.room = n) (hm : ps.Grants cx recipe) :
    let c := w.catalog recipe
    ps.Ends (fun _ => True) cx (w.obtain? deeper c.slot c.factory c.body cx) := by
  intro c
  unfold World.obtain?
  cases cx.known? c.slot with
  | some c => exact .done (hk.log trivial) (.log cx _) trivial
  | none =>
    cases deeper with
    | none =>
      obtain rfl : n = 0 := by simpa using hsome
      unfold Grants at hm
      rw [credit, hr, Nat.zero_add] at hm
      exact .met ⟨cx.events, [], by simp, hk.events, hh.spare hm, by simp⟩
    | some run =>
      obtain ⟨room, rfl⟩ : ∃ room, n = room + 1 := Nat.exists_eq_add_one.2 (hsome.1 rfl)
      refine (build_ends hh (hrun run rfl) hk hr hm).andThen fun c cx₁ hk₁ _ _ => ?_
      exact .done (hk₁.log trivial) (.log cx₁ _) trivial

/-- A program that keeps to the permissions never meets the queue. -/
theorem eval_ends {p : Prog α} {good : α → Prop} (hh : ps.Holds) (hsome : deeper.isSome ↔ 0 < n)
    (hrun : ∀ run, deeper = some run → ps.RunsWithin (n - 1) run)
    (hp : p.Keeps (ps.Grants cx) ps.fails good) (hr : cx.room = n) (hk : ps.Kept cx) :
    ps.Ends good cx (w.eval deeper drain p cx) := by
  induction p generalizing cx with
  | pure a => exact .done hk (.refl cx) hp
  | fail e => exact .failed hk (.refl cx) hp
  | fresh k ih => exact .deed hh (.fresh cx) rfl hk (hp _) hr (ih _)
  | define key k ih => exact .deed hh (.define cx key) rfl hk (hp _) hr (ih _)
  | emit t k ih => exact .deed hh (.emit cx t) rfl hk hp hr ih
  | modelError symbol text k ih =>
    unfold World.eval
    split
    · exact ih hp.2 hr hk
    · exact .failed hk (.refl cx) hp.1
  | missingType name k ih => exact .deed hh (.missingType cx name) rfl hk hp hr ih
  | setAssemblyFile name file k ih =>
    exact .deed hh (.setAssemblyFile cx name file) rfl hk hp hr ih
  | assemblyFile name k ih => exact ih _ (hp _) hr hk
  | openGenerics label k ih => exact .deed hh (.openGenerics cx label) rfl hk (hp _) hr (ih _)
  | snapshot k ih => exact ih _ (hp _) hr hk
  | note remark k ih => exact .deed hh (.note cx remark) rfl hk hp hr ih
  | attempt node symbol body k ihb ihk =>
    refine (recover_ends hh none node symbol (ihb hp.1 hr hk)).andThen fun _ cx₁ hk₁ hf _ => ?_
    exact ihk (hh.along hf hp.2) (hf.room.trans hr) hk₁
  | summon recipe k ih =>
    refine (obtain?_ends hh hsome hrun hk hr hp.1).andThen fun c cx₁ hk₁ hf _ => ?_
    exact ih c (hh.along hf (hp.2 c)) (hf.room.trans hr) hk₁
  | send | guarded | «catch» | later | drain | create => exact hp.elim

/-- Programs keep to their permissions at every depth, by induction on the room that is left. -/
theorem runWithin_binds (hh : ps.Holds) (drain : Nat → Context → Reply Unit) (n : Nat) :
    ps.RunsWithin n fun α p cx => w.runWithin drain n α p cx := by
  induction n with
  | zero => exact ⟨eval_ends hh (by simp) (by simp)⟩
  | succ n ih =>
    refine ⟨eval_ends hh (by simp) ?_⟩
    rintro run ⟨⟩
    exact ih

/-- How much left the queue so far. -/
def takings (cx : Context) : Nat :=
  (cx.events.filterMap Event.taken?).length

theorem takings_mono (h : Frame cx cx') : takings cx ≤ takings cx' :=
  (h.events.filterMap _).length_le

/-- Draining gives up where so much left the queue as there is a budget for, and more waits. -/
structure GivesUp (ps : Permissions w) (budget : Nat) (cx : Context) (r : Reply Unit) : Prop where
  outcome : r.outcome = .exhausted
  kept : ps.Kept r.context
  frame : Frame cx r.context
  takings : takings cx + budget ≤ takings r.context
  waiting : r.context.queue ≠ []

/-- Draining goes by the permissions, as far as the budget goes. -/
theorem drainWithin_ends (hh : ps.Holds) (budget : Nat) (hk : ps.Kept cx) (hr : cx.room = ps.room)
    (hg : cx.guards = []) :
    ps.Ends (fun _ => True) cx (w.drainWithin budget ps.room cx) ∨
      ps.GivesUp budget cx (w.drainWithin budget ps.room cx) := by
  induction budget generalizing cx with
  | zero =>
    unfold World.drainWithin
    cases hq : cx.queue with
    | nil => exact .inl (.done hk (.refl cx) trivial)
    | cons a rest => exact .inr ⟨rfl, hk, .refl cx, Nat.le_refl _, by simp [hq]⟩
  | succ budget ih =>
    unfold World.drainWithin
    cases hq : cx.queue with
    | nil => exact .inl (.done hk (.refl cx) trivial)
    | cons a rest =>
      have hf : Frame cx (cx.take a rest) := .take cx a rest
      have htaken : takings (cx.take a rest) = takings cx + 1 := by
        simp [takings, List.filterMap_append, Event.taken?]
      have hrun := runWithin_binds hh (fun room cx => w.drainWithin budget room cx) ps.room
      have hresume := resume_ends hh hrun (hk.take hq) (hf.room.trans hr) (hf.guards.trans hg)
        (hk.queue a (hq ▸ List.mem_cons_self))
      dsimp only
      generalize w.resume _ a _ = r at hresume
      cases hresume with
      | failed hk₁ hf₁ he => exact .inl (.failed hk₁ (hf.trans hf₁) he)
      | met hm => exact .inl (.met hm)
      | @done _ cx₁ hk₁ hf₁ _ =>
        have hf₂ : Frame cx cx₁ := hf.trans hf₁
        rcases ih hk₁ (hf₂.room.trans hr) (hf₂.guards.trans hg) with hrest | hrest
        · exact .inl (hrest.after hf₂)
        · refine .inr ⟨hrest.outcome, hrest.kept, hf₂.trans hrest.frame, ?_, hrest.waiting⟩
          have hmono := takings_mono hf₁
          have hrest := hrest.takings
          simp only [Reply.andThen]
          omega

/-- A program runs by the permissions, and so does what it queued. -/
theorem run_ends {p : Prog Unit} (hh : ps.Holds) (budget : Nat) (hk : ps.Kept cx)
    (hr : cx.room = ps.room) (hg : cx.guards = [])
    (hp : p.Keeps (ps.may false ps.room) ps.fails fun _ => True) :
    let r := w.run budget (p.bind fun _ => .drain (.pure ())) cx
    ps.Ends (fun _ => True) cx r ∨ ps.GivesUp budget cx r := by
  intro r
  let drain := fun room cx => w.drainWithin budget room cx
  have hsplit : r = (w.runWithin drain ps.room Unit p cx).andThen fun _ cx =>
      (w.drainWithin budget ps.room cx).andThen fun _ cx => ⟨.done (), cx⟩ := by
    rw [← hr]
    exact World.run_drain budget p cx
  have hgrants : p.Keeps (ps.Grants cx) ps.fails fun _ => True := by
    refine hp.mono (fun recipe hm => ?_) fun _ h => h
    have hoff : cx.inside = false := by rw [Context.inside, hg]; rfl
    have hroom : ps.room ≤ ps.credit cx := hr ▸ Nat.le_add_right _ _
    unfold Grants
    rw [hoff]
    exact hh.grows hroom hm
  have hprogram := (runWithin_binds hh drain ps.room).ends hgrants hr hk
  rw [hsplit]
  generalize w.runWithin drain ps.room Unit p cx = r₁ at hprogram
  cases hprogram with
  | failed hk₁ hf he => exact .inl (.failed hk₁ hf he)
  | met hm => exact .inl (.met hm)
  | @done _ cx₁ hk₁ hf _ =>
    simp only [Reply.andThen]
    rcases drainWithin_ends hh budget hk₁ (hf.room.trans hr) (hf.guards.trans hg) with hd | hd
    · refine .inl ((hd.andThen fun _ cx₂ hk₂ _ _ => ?_).after hf)
      exact .done hk₂ (.refl cx₂) trivial
    · generalize w.drainWithin budget ps.room cx₁ = r₂ at hd
      obtain ⟨o, cx₂⟩ := r₂
      obtain ⟨rfl, hk₂, hf₂, ht, hw⟩ := hd
      have hmono := takings_mono hf
      exact .inr ⟨rfl, hk₂, hf.trans hf₂, Nat.le_trans (by omega) ht, hw⟩

end Permissions

end TrapFacts
