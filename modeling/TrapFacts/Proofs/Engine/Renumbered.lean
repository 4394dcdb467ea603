import Mathlib.Data.List.Forall2
import Mathlib.Logic.Equiv.Defs
import TrapFacts.Proofs.Engine.Journal

/-! Programs and contexts that are the same but for the numbers of symbols. -/

namespace TrapFacts

universe u

variable {σ : Equiv.Perm SymbolId} {α β γ : Type} {g : α → α} {e e' : Failure} {slot : Slot}
  {cx cx' : Context}

/-! What mentions symbols. -/

def NamedType.renumber (σ : Equiv.Perm SymbolId) (t : NamedType) : NamedType :=
  { t with symbol := σ t.symbol }

def Method.renumber (σ : Equiv.Perm SymbolId) (f : Method) : Method :=
  { f with symbol := σ f.symbol, declaringSymbol := σ f.declaringSymbol }

def Custom.renumber (σ : Equiv.Perm SymbolId) (c : Custom) : Custom :=
  { c with symbol := c.symbol.map σ }

def Entity.renumber (σ : Equiv.Perm SymbolId) : Entity → Entity
  | .space id name parent => .space (σ id) name parent
  | .namedType t => .namedType (t.renumber σ)
  | .pointer id pointee => .pointer (σ id) pointee
  | .method f => .method (f.renumber σ)
  | .custom c => .custom (c.renumber σ)
  | en => en

def Created.renumber (σ : Equiv.Perm SymbolId) (c : Created) : Created :=
  { c with entity := c.entity.renumber σ }

def Source.renumber (σ : Equiv.Perm SymbolId) : Source → Source
  | .symbol id => .symbol (σ id)
  | a => a

def Slot.renumber (σ : Equiv.Perm SymbolId) : Slot → Slot
  | .value => .value
  | .object type source => .object type (source.renumber σ)

def Recipe.renumber (σ : Equiv.Perm SymbolId) : Recipe → Recipe
  | .space id => .space (σ id)
  | .namedType id => .namedType (σ id)
  | .pointer id => .pointer (σ id)
  | .method id => .method (σ id)
  | recipe => recipe

/-- The same failure. One may point at the renumbered symbol; but if it tells the number of the
symbol, that is the same. -/
inductive Failure.Renumbered (σ : Equiv.Perm SymbolId) : Failure → Failure → Prop
  | internal (text : String) (symbol : Option SymbolId) (node : Option NodeId) :
    Renumbered σ (.internal text symbol node) (.internal text (symbol.map σ) node)
  | unknownSymbol {id : SymbolId} : σ id = id → Renumbered σ (.unknownSymbol id) (.unknownSymbol id)
  | same {e : Failure} : e.symbol? = none → Renumbered σ e e

/-- The same lookup: it finds the same, on which `h` is the renumbering, or fails alike. -/
inductive Found (σ : Equiv.Perm SymbolId) (h : α → β) : Except Failure α → Except Failure β → Prop
  | ok (a : α) : Found σ h (.ok a) (.ok (h a))
  | error {e e' : Failure} : e.Renumbered σ e' → Found σ h (.error e) (.error e')

namespace Entity

variable (σ : Equiv.Perm SymbolId) (en : Entity)

/-- Whatever identifies an entity, it is no number. -/
@[simp] theorem key_renumber : (en.renumber σ).key = en.key := by
  cases en with
  | space _ _ parent => cases parent <;> rfl
  | _ => rfl

@[simp] theorem behavior_renumber : (en.renumber σ).behavior = en.behavior := by
  cases en <;> rfl

@[simp] theorem needsPopulation_renumber :
    (en.renumber σ).needsPopulation = en.needsPopulation := by
  cases en <;> rfl

@[simp] theorem reportingLocation?_renumber :
    (en.renumber σ).reportingLocation? = en.reportingLocation? := by
  cases en <;> rfl

@[simp] theorem symbol?_renumber : (en.renumber σ).symbol? = en.symbol?.map σ := by
  cases en <;> rfl

end Entity

/-- Renumbered sources are told apart as the sources are. -/
theorem Source.renumber_injective (σ : Equiv.Perm SymbolId) :
    Function.Injective (Source.renumber σ) := by
  intro a b h
  cases a <;> cases b <;> simp_all [Source.renumber]

theorem Failure.Renumbered.message (h : e.Renumbered σ e') : e'.message = e.message := by
  cases h <;> rfl

theorem Failure.Renumbered.isFatal (h : e.Renumbered σ e') : e'.isFatal = e.isFatal := by
  cases h <;> rfl

namespace Prog

/-- The same program on renumbered symbols; `g` tells what becomes of the result. -/
inductive Renumbered (σ : Equiv.Perm SymbolId) : {α : Type} → (α → α) → Prog α → Prog α → Prop
  | pure {α : Type} {g : α → α} (a : α) : Renumbered σ g (.pure a) (.pure (g a))
  | fail {α : Type} {g : α → α} {e e' : Failure} : e.Renumbered σ e' →
    Renumbered σ g (.fail e : Prog α) (.fail e')
  | fresh {α : Type} {g : α → α} {k k' : Label → Prog α} :
    (∀ l, Renumbered σ g (k l) (k' l)) → Renumbered σ g (.fresh k) (.fresh k')
  | emit {α : Type} {g : α → α} (t : Tuple) {k k' : Prog α} :
    Renumbered σ g k k' → Renumbered σ g (.emit t k) (.emit t k')
  | modelError {α : Type} {g : α → α} (symbol : Option SymbolId) (text : String) {k k' : Prog α} :
    Renumbered σ g k k' →
      Renumbered σ g (.modelError symbol text k) (.modelError (symbol.map σ) text k')
  | missingType {α : Type} {g : α → α} (name : String) {k k' : Prog α} :
    Renumbered σ g k k' → Renumbered σ g (.missingType name k) (.missingType name k')
  | assemblyFile {α : Type} {g : α → α} (name : String) {k k' : Option String → Prog α} :
    (∀ file, Renumbered σ g (k file) (k' file)) →
      Renumbered σ g (.assemblyFile name k) (.assemblyFile name k')
  | openGenerics {α : Type} {g : α → α} (l : Label) {k k' : Bool → Prog α} :
    (∀ new, Renumbered σ g (k new) (k' new)) →
      Renumbered σ g (.openGenerics l k) (.openGenerics l k')
  | attempt {α : Type} {g : α → α} (node : Option NodeId) (symbol : Option SymbolId)
      {body body' : Prog Unit} {k k' : Prog α} :
    Renumbered σ id body body' → Renumbered σ g k k' →
      Renumbered σ g (.attempt node symbol body k) (.attempt node (symbol.map σ) body' k')
  | drain {α : Type} {g : α → α} {k k' : Prog α} :
    Renumbered σ g k k' → Renumbered σ g (.drain k) (.drain k')
  | summon {α : Type} {g : α → α} (recipe : Recipe) {k k' : Created → Prog α} :
    (∀ c, Renumbered σ g (k c) (k' (c.renumber σ))) →
      Renumbered σ g (.summon recipe k) (.summon (recipe.renumber σ) k')

namespace Renumbered

/-- Renumbered programs may be put in sequence. -/
theorem bind {h : β → β} {p p' : Prog α} {f f' : α → Prog β} (hp : p.Renumbered σ g p')
    (hf : ∀ a, (f a).Renumbered σ h (f' (g a))) : (p.bind f).Renumbered σ h (p'.bind f') := by
  induction hp with
  | pure a => exact hf a
  | fail he => exact .fail he
  | fresh _ ih => exact .fresh fun l => ih l hf
  | emit t _ ih => exact .emit t (ih hf)
  | modelError symbol text _ ih => exact .modelError symbol text (ih hf)
  | missingType name _ ih => exact .missingType name (ih hf)
  | assemblyFile name _ ih => exact .assemblyFile name fun file => ih file hf
  | openGenerics l _ ih => exact .openGenerics l fun new => ih new hf
  | attempt node symbol hb _ _ ih => exact .attempt node symbol hb (ih hf)
  | drain _ ih => exact .drain (ih hf)
  | summon recipe _ ih => exact .summon recipe fun c => ih c hf

/-- A failed lookup ends both programs, after a successful one they go on with what they found. -/
theorem read {h : α → β} {g : γ → γ} {r : Except Failure α} {r' : Except Failure β}
    {f : α → Prog γ} {f' : β → Prog γ} (hr : Found σ h r r')
    (hf : ∀ a, (f a).Renumbered σ g (f' (h a))) :
    ((Prog.ofExcept r).bind f).Renumbered σ g ((Prog.ofExcept r').bind f') := by
  cases hr with
  | ok a => exact hf a
  | error he => exact .fail he

theorem each {h : α → β} {body : α → Prog Unit} {body' : β → Prog Unit}
    (hbody : ∀ a, (body a).Renumbered σ id (body' (h a))) (items : List α) :
    (Prog.each items body).Renumbered σ id (Prog.each (items.map h) body') := by
  induction items with
  | nil => exact .pure ()
  | cons a items ih => exact (hbody a).bind fun _ => ih

theorem collect {h : α → β} {body : α → Prog γ} {body' : β → Prog γ}
    (hbody : ∀ a, (body a).Renumbered σ id (body' (h a))) (items : List α) :
    (Prog.collect items body).Renumbered σ id (Prog.collect (items.map h) body') := by
  induction items with
  | nil => exact .pure []
  | cons a items ih => exact (hbody a).bind fun b => ih.bind fun bs => .pure (b :: bs)

theorem fact (relation : String) (args : List Value) :
    (Prog.fact relation args).Renumbered σ id (Prog.fact relation args) :=
  .emit _ (.pure ())

theorem entity (recipe : Recipe) :
    (Prog.entity recipe).Renumbered σ (Created.renumber σ) (Prog.entity (recipe.renumber σ)) :=
  .summon recipe fun c => .pure c

end Renumbered

end Prog

/-- The same description of a renumbered entity. -/
inductive Work.Renumbered (σ : Equiv.Perm SymbolId) : Work → Work → Prop
  | population {en : Entity} {l : Label} {body body' : Prog Unit} : body.Renumbered σ id body' →
    Renumbered σ (.population en l body) (.population (en.renumber σ) l body')

/-- The work is numbered alike, and is the same on renumbered symbols. -/
structure Pending.Renumbered (σ : Equiv.Perm SymbolId) (a a' : Pending) : Prop where
  number : a.number = a'.number
  work : a.work.Renumbered σ a'.work

namespace Context

/-- A context without what mentions symbols. -/
def numberless (cx : Context) : Context :=
  { cx with queue := [], objects := {}, journal := #[] }

/-- Two contexts that are the same but for the numbers of symbols. -/
structure Renumbered (σ : Equiv.Perm SymbolId) (cx cx' : Context) : Prop where
  numberless : cx.numberless = cx'.numberless
  trap : cx.trap = cx'.trap
  queue : List.Forall₂ (Pending.Renumbered σ) cx.queue cx'.queue
  objects : ∀ (type : EntityType) (source : Source),
    cx'.objects[(type, source.renumber σ)]? = cx.objects[(type, source)]?.map (Created.renumber σ)

namespace Renumbered

theorem fresh (x : Extractor) : Renumbered σ { extractor := x } { extractor := x } where
  numberless := rfl
  trap := rfl
  queue := .nil
  objects type source := by simp

section

variable (h : cx.Renumbered σ cx')

include h

/-- What mentions no symbol is the same. -/
theorem agree {δ : Type u} (f : Context → δ) (hf : ∀ cx, f cx.numberless = f cx) :
    f cx = f cx' := by
  rw [← hf cx, ← hf cx', h.numberless]

/-- A change of what mentions no symbol. -/
theorem map (f : Context → Context) (hf : ∀ cx, (f cx).numberless = f cx.numberless ∧
    (f cx).queue = cx.queue ∧ (f cx).objects = cx.objects ∧ (f cx).journal = cx.journal) :
    (f cx).Renumbered σ (f cx') := by
  obtain ⟨hn, hq, ho, hj⟩ := hf cx
  obtain ⟨hn', hq', ho', hj'⟩ := hf cx'
  refine ⟨?_, ?_, ?_, ?_⟩
  · rw [hn, hn', h.numberless]
  · rw [Context.trap, Context.trap, hj, hj']
    exact h.trap
  · rw [hq, hq']
    exact h.queue
  · rw [ho, ho']
    exact h.objects

/-- Events are alike that write the same record, if any. -/
theorem log {a a' : Event} (ha : a.record? = a'.record?) :
    (cx.log a).Renumbered σ (cx'.log a') where
  numberless := h.numberless
  trap := by rw [trap_event (cx.events_log a), trap_event (cx'.events_log a'), h.trap, ha]
  queue := h.queue
  objects := h.objects

theorem send (message : Message) (about : Option Concern) :
    (cx.send message about).Renumbered σ (cx'.send message about) :=
  (h.map (fun cx => { cx with extractor := cx.extractor.message message })
    fun _ => ⟨rfl, rfl, rfl, rfl⟩).log rfl

theorem missingType (name : String) : (cx.missingType name).Renumbered σ (cx'.missingType name) :=
  (h.map (fun cx => { cx with extractor := cx.extractor.missingType name })
    fun _ => ⟨rfl, rfl, rfl, rfl⟩).log rfl

theorem write (r : Record) : (cx.write r).Renumbered σ (cx'.write r) :=
  (h.map (fun cx => { cx with records := cx.records + 1 }) fun _ => ⟨rfl, rfl, rfl, rfl⟩).log rfl

theorem allocate : cx.allocate.Renumbered σ cx'.allocate :=
  h.map _ fun _ => ⟨rfl, rfl, rfl, rfl⟩

theorem openGenerics (l : Label) : (cx.openGenerics l).Renumbered σ (cx'.openGenerics l) :=
  h.map (·.openGenerics l) fun _ => ⟨rfl, rfl, rfl, rfl⟩

theorem enqueue {work work' : Work} (hw : work.Renumbered σ work') :
    (cx.enqueue work).Renumbered σ (cx'.enqueue work') := by
  have hdeferred : cx.deferred = cx'.deferred := h.agree _ fun _ => rfl
  have hcount := h.map (fun cx => { cx with deferred := cx.deferred + 1 })
    fun _ => ⟨rfl, rfl, rfl, rfl⟩
  have hwaiting : Renumbered σ
      { cx with deferred := cx.deferred + 1, queue := cx.queue ++ [⟨cx.deferred, work⟩] }
      { cx' with deferred := cx'.deferred + 1, queue := cx'.queue ++ [⟨cx'.deferred, work'⟩] } :=
    { hcount with queue := List.rel_append h.queue (.cons ⟨hdeferred, hw⟩ .nil) }
  exact hwaiting.log rfl

theorem take (a a' : Pending) {rest rest' : List Pending}
    (hrest : List.Forall₂ (Pending.Renumbered σ) rest rest') :
    (cx.take a rest).Renumbered σ (cx'.take a' rest') := by
  have hleft : Renumbered σ { cx with queue := rest } { cx' with queue := rest' } :=
    { h with queue := hrest }
  exact hleft.log rfl

theorem enter (slot slot' : Slot) : (cx.enter slot).Renumbered σ (cx'.enter slot') :=
  (h.map (fun cx => { cx with depth := cx.depth + 1 }) fun _ => ⟨rfl, rfl, rfl, rfl⟩).log rfl

theorem leave : cx.leave.Renumbered σ cx'.leave :=
  h.map _ fun _ => ⟨rfl, rfl, rfl, rfl⟩

theorem openGuard (key : Key) : (cx.openGuard key).Renumbered σ (cx'.openGuard key) :=
  (h.map (fun cx => { cx with guards := key :: cx.guards }) fun _ => ⟨rfl, rfl, rfl, rfl⟩).write _

theorem closeGuard : cx.closeGuard.Renumbered σ cx'.closeGuard :=
  (h.map (fun cx => { cx with guards := cx.guards.tail }) fun _ => ⟨rfl, rfl, rfl, rfl⟩).write _

theorem populating (en en' : Entity) (l : Label) :
    (cx.populating en l).Renumbered σ (cx'.populating en' l) :=
  (h.map (fun cx => { cx with populated := cx.populated + 1 })
    fun _ => ⟨rfl, rfl, rfl, rfl⟩).log rfl

theorem register (rendered : String) :
    (cx.register rendered).Renumbered σ (cx'.register rendered) := by
  have hchecked : cx.extractor.config.checkLabelCollisions =
      cx'.extractor.config.checkLabelCollisions := h.agree (·.extractor.config.checkLabelCollisions)
    fun _ => rfl
  have hknown : cx.keys.contains rendered = cx'.keys.contains rendered :=
    h.agree (·.keys.contains rendered) fun _ => rfl
  unfold Context.register
  rw [hchecked, hknown]
  split
  · exact h
  · split
    · exact h.send _ _
    · exact h.map (fun cx => { cx with keys := cx.keys.insert rendered }) fun _ =>
        ⟨rfl, rfl, rfl, rfl⟩

/-- Renumbered contexts know the renumbered objects. -/
theorem known? (slot : Slot) :
    cx'.known? (slot.renumber σ) = (cx.known? slot).map (·.renumber σ) := by
  cases slot with
  | value => rfl
  | object type source => exact h.objects type source

/-- Renumbered contexts find the same entities again. -/
theorem same? (slot : Slot) (en : Entity) :
    cx'.same? (slot.renumber σ) (en.renumber σ) = (cx.same? slot en).map (·.renumber σ) := by
  cases slot with
  | value =>
    have hvalues : cx.values = cx'.values := h.agree _ fun _ => rfl
    simp only [Slot.renumber, Context.same?, Entity.key_renumber, hvalues, Option.map_map]
    rfl
  | object type source => exact h.objects type source

/-- Slots stay apart when symbols are renumbered. -/
theorem remember (slot : Slot) (c : Created) :
    (cx.remember slot c).Renumbered σ (cx'.remember (slot.renumber σ) (c.renumber σ)) := by
  cases slot with
  | value =>
    have hinsert := h.map (·.remember .value c) fun _ => ⟨rfl, rfl, rfl, rfl⟩
    simpa [Context.remember, Slot.renumber, Created.renumber] using hinsert
  | object type source =>
    refine ⟨h.numberless, h.trap, h.queue, ?_⟩
    intro type' source'
    -- The new object is asked for in both contexts or in neither.
    have hsource : source.renumber σ = source'.renumber σ ↔ source = source' :=
      (Source.renumber_injective σ).eq_iff
    simp only [Context.remember, Slot.renumber, Std.HashMap.getElem?_insert, h.objects,
      beq_iff_eq, Prod.mk.injEq, hsource]
    split <;> rfl

/-- A new entity gets the same label in both contexts. -/
theorem introduce (slot : Slot) (en : Entity) :
    (cx'.introduce (slot.renumber σ) (en.renumber σ)).1 = (cx.introduce slot en).1.renumber σ ∧
      (cx.introduce slot en).2.Renumbered σ
        (cx'.introduce (slot.renumber σ) (en.renumber σ)).2 := by
  have hnext : cx.nextLabel = cx'.nextLabel := h.agree _ fun _ => rfl
  have hremember := h.allocate.remember slot ⟨cx.nextLabel, en⟩
  have hwritten := (hremember.register en.key.render).write (.define cx.nextLabel en.key)
  unfold Context.introduce
  rw [← hnext, Entity.key_renumber]
  exact ⟨rfl, hwritten.log rfl⟩

end

end Renumbered

end Context

end TrapFacts
