import TrapFacts.Context
import TrapFacts.Scope

/-!
Running programs. Nesting is bounded by the room left under the recursion limit, draining the
queue by a budget of queued actions.
-/

namespace TrapFacts

/-- How an entity is made and described. -/
structure Creation where
  slot : Slot
  factory : Prog Entity
  body : Entity → Label → Prog Unit

/-- What a program runs against, apart from its context. -/
structure World where
  model : Model
  scope : Scope
  catalog : Recipe → Creation

inductive Outcome (α : Type) where
  | done (result : α)
  | failed (cause : Failure)
  /-- The budget for draining ran out. -/
  | exhausted

/-- The outcome of a run and the context it left. -/
structure Reply (α : Type) where
  outcome : Outcome α
  context : Context

/-- Go on with the result of a run. One that has none stays as it is. -/
@[inline]
def Reply.andThen {α β : Type} (r : Reply α) (next : α → Context → Reply β) : Reply β :=
  match r with
  | ⟨.done a, cx⟩ => next a cx
  | ⟨.failed e, cx⟩ => ⟨.failed e, cx⟩
  | ⟨.exhausted, cx⟩ => ⟨.exhausted, cx⟩

/-- A way to run programs. -/
abbrev Runner := (α : Type) → Prog α → Context → Reply α

namespace World

variable (w : World)

/-- Report a failure that is not fatal and go on. The concern is with the entity, if any, whose
description failed. -/
def recover (about : Option Concern) (node : Option NodeId) (symbol : Option SymbolId)
    (r : Reply Unit) : Reply Unit :=
  match r with
  | ⟨.failed e, cx⟩ =>
    if e.isFatal then ⟨.failed e, cx⟩
    else ⟨.done (), cx.send (w.model.failureMessage e node symbol) about⟩
  | r => r

/-- Run an action inside a duplication guard, which is closed however the action ends. An
assembly's trap has no guards. -/
def guarding (key : Key) (action : Context → Reply Unit) (cx : Context) : Reply Unit :=
  if w.scope.isAssembly then action cx
  else
    let r := action (cx.openGuard key)
    ⟨r.outcome, r.context.closeGuard⟩

/-- Describe an entity, reporting what goes wrong. -/
def describe (run : Runner) (entity : Entity) (label : Label) (body : Prog Unit) (cx : Context) :
    Reply Unit :=
  w.recover (some (.failure label)) none entity.symbol? (run Unit body (cx.populating entity label))

/-- Describe an entity, inside its own guard if it wants one. -/
def populate (run : Runner) (entity : Entity) (label : Label) (body : Prog Unit) (cx : Context) :
    Reply Unit :=
  if (entity.behavior.plan (!cx.guards.isEmpty)).duplicationGuard then
    (run Created (.entity (.location entity.reportingLocation?)) cx).andThen fun place cx =>
      w.guarding (.label label (.ofLabel place.label)) (w.describe run entity label body) cx
  else w.describe run entity label body cx

/-- Tell about a guard that is needed and not open. -/
def complain (plan : Plan) (entity : Entity) (label : Label) (cx : Context) : Context :=
  if plan.missingGuard then cx.send (w.model.complaint entity) (some (.missingGuard label)) else cx

/-- Describe a new entity now, or queue its description. -/
def schedule (run : Runner) (entity : Entity) (label : Label) (body : Prog Unit) (cx : Context) :
    Reply Unit :=
  let plan := entity.behavior.plan (!cx.guards.isEmpty)
  let cx := w.complain plan entity label cx
  if plan.deferred then
    ⟨.done (), cx.enqueue (.population entity label body)⟩
  else w.recover (some (.failure label)) none entity.symbol? (w.populate run entity label body cx)

/-- Settle on the entity that a factory made: the one its slot has already, or itself. -/
def settle (run : Runner) (slot : Slot) (body : Entity → Label → Prog Unit) (entity : Entity)
    (cx : Context) : Reply Created :=
  match cx.same? slot entity with
  | some c => ⟨.done c, cx⟩
  | none =>
    let (c, cx) := cx.introduce slot entity
    if entity.needsPopulation then
      (w.schedule run entity c.label (body entity c.label) cx).andThen fun _ cx => ⟨.done c, cx⟩
    else ⟨.done c, cx⟩

/-- Make an entity one level deeper. The level is left however the making ends. -/
def build (run : Runner) (slot : Slot) (factory : Prog Entity)
    (body : Entity → Label → Prog Unit) (cx : Context) : Reply Created :=
  let r := (run Entity factory (cx.enter slot)).andThen (w.settle run slot body)
  ⟨r.outcome, r.context.leave⟩

/-- The entity of a slot: the known one, or a new one if there is a level left to make it on. -/
def obtain? (deeper : Option Runner) (slot : Slot) (factory : Prog Entity)
    (body : Entity → Label → Prog Unit) (cx : Context) : Reply Created :=
  match cx.known? slot, deeper with
  | some c, _ => ⟨.done c, cx.log (.served slot c)⟩
  | none, none =>
    ⟨.failed (.recursionLimit cx.extractor.config.maxRecursionDepth), cx.log .limitHit⟩
  | none, some run =>
    (w.build run slot factory body cx).andThen fun c cx => ⟨.done c, cx.log (.served slot c)⟩

/-- Run work that left the queue, a program under the guard it was queued with. -/
def resume (run : Runner) (a : Pending) (cx : Context) : Reply Unit :=
  match a.work with
  | .program guard body =>
    let action := fun (cx : Context) => run Unit body (cx.log (.began a.number))
    w.recover none none none
      (match guard with
      | some key => w.guarding key action cx
      | none => action cx)
  | .population entity label body =>
    w.recover (some (.failure label)) none entity.symbol?
      (w.populate run entity label body (cx.log (.began a.number)))

/-- Run a program, given how to run what it nests one level deeper, and how to drain the queue. -/
def eval (w : World) (deeper : Option Runner) (drain : Context → Reply Unit) {α : Type} :
    Prog α → Context → Reply α
  | .pure a, cx => ⟨.done a, cx⟩
  | .fail e, cx => ⟨.failed e, cx⟩
  | .fresh k, cx =>
    w.eval deeper drain (k cx.nextLabel) (cx.allocate.write (.fresh cx.nextLabel))
  | .define key k, cx =>
    w.eval deeper drain (k cx.nextLabel) (cx.allocate.write (.define cx.nextLabel key))
  | .emit t k, cx => w.eval deeper drain k (cx.write (.tuple t))
  | .send m k, cx => w.eval deeper drain k (cx.send m none)
  | .modelError symbol text k, cx =>
    if cx.extractor.config.standalone then w.eval deeper drain k cx
    else ⟨.failed (.internal text symbol none), cx⟩
  | .missingType n k, cx => w.eval deeper drain k (cx.missingType n)
  | .setAssemblyFile n file k, cx => w.eval deeper drain k (cx.setAssemblyFile n file)
  | .assemblyFile n k, cx => w.eval deeper drain (k (cx.extractor.assemblyFile? n)) cx
  | .openGenerics l k, cx =>
    w.eval deeper drain (k (!cx.generics.contains l)) (cx.openGenerics l)
  | .snapshot k, cx => w.eval deeper drain (k cx.snapshot) cx
  | .note n k, cx => w.eval deeper drain k (cx.log (.noted n))
  | .guarded key body k, cx =>
    (w.guarding key (w.eval deeper drain body) cx).andThen fun _ cx => w.eval deeper drain k cx
  | .attempt node symbol body k, cx =>
    (w.recover none node symbol (w.eval deeper drain body cx)).andThen fun _ cx =>
      w.eval deeper drain k cx
  | .catch body k, cx =>
    match w.eval deeper drain body cx with
    | ⟨.done b, cx⟩ => w.eval deeper drain (k (.ok b)) cx
    | ⟨.failed e, cx⟩ => w.eval deeper drain (k (.error e)) cx
    | ⟨.exhausted, cx⟩ => ⟨.exhausted, cx⟩
  | .later body k, cx =>
    w.eval deeper drain k (cx.enqueue (.program cx.guards.head? body))
  | .drain k, cx => (drain cx).andThen fun _ cx => w.eval deeper drain k cx
  | .create slot factory body k, cx =>
    (w.obtain? deeper slot factory body cx).andThen fun c cx => w.eval deeper drain (k c) cx
  | .summon recipe k, cx =>
    let c := w.catalog recipe
    (w.obtain? deeper c.slot c.factory c.body cx).andThen fun c cx =>
      w.eval deeper drain (k c) cx

/-- Run a program with room for so many nested creations. -/
def runWithin (w : World) (drain : Nat → Context → Reply Unit) :
    Nat → (α : Type) → Prog α → Context → Reply α
  | 0, _, p, cx => w.eval none (drain 0) p cx
  | room + 1, _, p, cx =>
    w.eval (some fun α p cx => w.runWithin drain room α p cx) (drain (room + 1)) p cx

/-- Run what is queued, first come first served, until nothing is left or a failure is fatal. -/
def drainWithin (w : World) : (budget room : Nat) → Context → Reply Unit
  | 0, _, cx =>
    match cx.queue with
    | [] => ⟨.done (), cx⟩
    | _ => ⟨.exhausted, cx⟩
  | budget + 1, room, cx =>
    match cx.queue with
    | [] => ⟨.done (), cx⟩
    | a :: rest =>
      let run := w.runWithin (fun room cx => w.drainWithin budget room cx) room
      (w.resume run a (cx.take a rest)).andThen fun _ cx =>
        w.drainWithin budget room cx

/-- Run a program. The budget bounds how many queued actions may follow one another. -/
def run (budget : Nat) {α : Type} (p : Prog α) (cx : Context) : Reply α :=
  w.runWithin (fun room cx => w.drainWithin budget room cx)
    (cx.extractor.config.maxRecursionDepth - cx.depth) α p cx

end World

end TrapFacts
