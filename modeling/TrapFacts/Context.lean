import Std.Data.HashMap
import Std.Data.HashSet
import TrapFacts.Extractor
import TrapFacts.Model.DisplayName
import TrapFacts.Program

/-!
Contexts: the state of one unit at work. A journal keeps what happened and in which state.
-/

namespace TrapFacts

/-- Work that waits in the queue. -/
inductive Work where
  /-- A program, with the guard that was open when it was queued. -/
  | program (guard : Option Key) (body : Prog Unit)
  | population (entity : Entity) (label : Label) (body : Prog Unit)

/-- The entity, if any, whose description the work is. -/
def Work.entity? : Work → Option Created
  | .program _ _ => none
  | .population entity label _ => some { label, entity }

/-- Queued work, numbered in the order of queueing. -/
structure Pending where
  number : Nat
  work : Work

/-- What a message of the engine's own is about. -/
inductive Concern where
  /-- A new entity misses a guard. -/
  | missingGuard (label : Label)
  /-- The description of an entity failed. -/
  | failure (label : Label)
  deriving DecidableEq

/-- The label of the entity that a message is about. -/
def Concern.label : Concern → Label
  | missingGuard label => label
  | failure label => label

inductive Event where
  | wrote (record : Record)
  /-- A message was sent, about an entity if there is a concern. -/
  | sent (message : Message) (about : Option Concern)
  | missing (name : String)
  /-- A factory began to make the entity of a slot, one level deeper. -/
  | making (slot : Slot)
  /-- A new entity got its label. -/
  | created (slot : Slot) (entity : Created)
  /-- A creation returned an entity, new or not. -/
  | served (slot : Slot) (entity : Created)
  | populating (entity : Entity) (label : Label)
  /-- Work was queued, the description of an entity if there is one. -/
  | queued (number : Nat) (entity : Option Created)
  /-- Work left the queue. -/
  | taken (number : Nat)
  /-- Work that left the queue began, its guard open again. -/
  | began (number : Nat)
  | limitHit
  | noted (remark : Note)

/-- An event and the state it left. -/
structure Moment where
  event : Event
  depth : Nat
  guards : List Key
  pending : Nat
  deferred : Nat

structure Context where
  extractor : Extractor
  /-- How many labels were given, which is the next one. It is not bounded, as `Label` is not. -/
  labels : Nat := 0
  populated : Nat := 0
  deferred : Nat := 0
  records : Nat := 0
  depth : Nat := 0
  /-- The open duplication guards, the innermost first. -/
  guards : List Key := []
  queue : List Pending := []
  /-- Entities by the type and the object they were created from. -/
  objects : Std.HashMap (EntityType × Source) Created := {}
  /-- Labels by rendered key, for entities without an object. -/
  values : Std.HashMap String Label := {}
  /-- Every rendered key that was defined. -/
  keys : Std.HashSet String := {}
  generics : Std.HashSet Label := {}
  journal : Array Moment := #[]

namespace Context

variable (cx : Context)

def stats : Stats :=
  { labels := cx.labels, populated := cx.populated, deferred := cx.deferred, records := cx.records }

def snapshot : Snapshot :=
  { depth := cx.depth
    pending := cx.queue.length
    guard := cx.guards.head?
    inGuard := !cx.guards.isEmpty
    stats := cx.stats }

def log (event : Event) : Context :=
  { cx with
    journal := cx.journal.push
      { event
        depth := cx.depth
        guards := cx.guards
        pending := cx.queue.length
        deferred := cx.deferred } }

def write (record : Record) : Context :=
  { cx with records := cx.records + 1 }.log (.wrote record)

def send (message : Message) (about : Option Concern) : Context :=
  { cx with extractor := cx.extractor.message message }.log (.sent message about)

def missingType (name : String) : Context :=
  { cx with extractor := cx.extractor.missingType name }.log (.missing name)

def setAssemblyFile (name file : String) : Context :=
  { cx with extractor := cx.extractor.setAssemblyFile name file }

/-- Remember that a label's generic contents were opened. -/
def openGenerics (label : Label) : Context :=
  { cx with generics := cx.generics.insert label }

/-- The label that comes next. -/
def nextLabel : Label :=
  ⟨cx.labels + 1⟩

def allocate : Context :=
  { cx with labels := cx.labels + 1 }

/-- Remember a key, or warn if it is known, if such warnings are wanted. -/
def register (rendered : String) : Context :=
  if !cx.extractor.config.checkLabelCollisions then cx
  else if cx.keys.contains rendered then
    cx.send (.warning ("Label collision for " ++ rendered)) none
  else { cx with keys := cx.keys.insert rendered }

def enqueue (work : Work) : Context :=
  let entry : Pending := { number := cx.deferred, work }
  { cx with deferred := cx.deferred + 1, queue := cx.queue ++ [entry] }.log
    (.queued entry.number work.entity?)

/-- Take the first of the queued work, of which the rest is left. -/
def take (a : Pending) (rest : List Pending) : Context :=
  { cx with queue := rest }.log (.taken a.number)

/-- Enter the level on which the entity of a slot is made. -/
def enter (slot : Slot) : Context :=
  { cx with depth := cx.depth + 1 }.log (.making slot)

def leave : Context :=
  { cx with depth := cx.depth - 1 }

def openGuard (key : Key) : Context :=
  { cx with guards := key :: cx.guards }.write (.push key)

def closeGuard : Context :=
  { cx with guards := cx.guards.tail }.write .pop

/-- Begin to describe an entity. -/
def populating (entity : Entity) (label : Label) : Context :=
  { cx with populated := cx.populated + 1 }.log (.populating entity label)

/-- The entity that an object stands for already. -/
def known? : Slot → Option Created
  | .value => none
  | .object type source => cx.objects[(type, source)]?

/-- The entity that a slot has for an entity just made: for an object the one it stands for,
without an object the new one under the label of its key. -/
def same? (slot : Slot) (entity : Entity) : Option Created :=
  match slot with
  | .value => (cx.values[entity.key.render]?).map fun label => { label, entity }
  | .object _ _ => cx.known? slot

def remember (slot : Slot) (c : Created) : Context :=
  match slot with
  | .value => { cx with values := cx.values.insert c.entity.key.render c.label }
  | .object type source => { cx with objects := cx.objects.insert (type, source) c }

/-- Give a new entity its label and define it. -/
def introduce (slot : Slot) (entity : Entity) : Created × Context :=
  let c : Created := { label := cx.nextLabel, entity }
  let cx := (cx.allocate.remember slot c).register entity.key.render
  (c, (cx.write (.define c.label entity.key)).log (.created slot c))

/-- The records written so far. -/
def trap : List Record :=
  cx.journal.toList.filterMap fun m =>
    match m.event with
    | .wrote record => some record
    | _ => none

/-- The messages sent so far, whether they were logged or not. -/
def sent : List Message :=
  cx.journal.toList.filterMap fun m =>
    match m.event with
    | .sent message _ => some message
    | _ => none

/-- The remarks left so far. -/
def notes : List Note :=
  cx.journal.toList.filterMap fun m =>
    match m.event with
    | .noted remark => some remark
    | _ => none

end Context

namespace Model

/-- A message with what the model knows of a symbol. -/
def attributed (m : Model) (symbol : Option SymbolId) (message : Message) : Message :=
  match symbol with
  | none => message
  | some id =>
    { message with symbol := some (m.displayName id), locations := m.describeLocations id }

/-- The text of the error about a guard that is missing. -/
def complaintText : String :=
  "Tag stack unexpectedly empty"

/-- The error about a guard that an entity misses. -/
def complaint (m : Model) (entity : Entity) : Message :=
  m.attributed entity.symbol? (.error complaintText)

/-- The report of a failure, attributed to the given node and symbol, else to what the failure
itself names. -/
def failureMessage (m : Model) (e : Failure) (node : Option NodeId) (symbol : Option SymbolId) :
    Message :=
  let message := match e with
    | .internal text _ _ => Message.error text
    | _ => { Message.error "Uncaught exception" with cause := some e.message }
  m.attributed (symbol.or e.symbol?)
    { message with node := (node.or e.node?).map NodeId.text }

end Model

end TrapFacts
