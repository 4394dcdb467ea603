import TrapFacts.Entity.Basic
import TrapFacts.Message
import TrapFacts.Record

/-!
Programs: what extraction does in a context, as data. A program is a sequence of operations, each
followed by a continuation on its result.
-/

namespace TrapFacts

/-- Counters of a unit. -/
structure Stats where
  labels : Nat
  populated : Nat
  deferred : Nat
  records : Nat
  deriving DecidableEq

/-- What can be seen of a context from outside. -/
structure Snapshot where
  depth : Nat
  pending : Nat
  guard : Option Key
  inGuard : Bool
  stats : Stats
  deriving DecidableEq

/-- The result of a script's step. -/
inductive Answer where
  | nothing
  | flag (value : Bool)
  | label (value : Label)
  | entity (value : Created)
  deriving DecidableEq

/-- A remark that a script leaves behind: a step that ended, or a description that began. -/
inductive Note where
  | finished (step : String) (result : Except Failure Answer) (state : Snapshot)
  | describing (label : Label)

/-- An entity that extraction knows how to make from the model. -/
inductive Recipe where
  | file (path : String)
  | location (place : Option Declaration)
  | assembly (name : String)
  | space (symbol : SymbolId)
  | namedType (symbol : SymbolId)
  | pointer (symbol : SymbolId)
  | method (symbol : SymbolId)
  deriving DecidableEq

inductive Prog : Type → Type 1 where
  | pure {α : Type} (result : α) : Prog α
  | fail {α : Type} (cause : Failure) : Prog α
  /-- A label that no other entity shares. -/
  | fresh {α : Type} (next : Label → Prog α) : Prog α
  /-- A label defined for a key, apart from all caches. -/
  | define {α : Type} (key : Key) (next : Label → Prog α) : Prog α
  | emit {α : Type} (fact : Tuple) (next : Prog α) : Prog α
  | send {α : Type} (message : Message) (next : Prog α) : Prog α
  /-- Fail at an error in the model, unless the model is known to be incomplete. -/
  | modelError {α : Type} (symbol : Option SymbolId) (text : String) (next : Prog α) : Prog α
  | missingType {α : Type} (name : String) (next : Prog α) : Prog α
  | setAssemblyFile {α : Type} (name file : String) (next : Prog α) : Prog α
  | assemblyFile {α : Type} (name : String) (next : Option String → Prog α) : Prog α
  /-- Whether the label's generic contents were not opened before. -/
  | openGenerics {α : Type} (label : Label) (next : Bool → Prog α) : Prog α
  | snapshot {α : Type} (next : Snapshot → Prog α) : Prog α
  | note {α : Type} (remark : Note) (next : Prog α) : Prog α
  /-- Run the body inside a duplication guard. -/
  | guarded {α : Type} (key : Key) (body : Prog Unit) (next : Prog α) : Prog α
  /-- Run the body and report a failure that is not fatal. -/
  | attempt {α : Type} (node : Option NodeId) (symbol : Option SymbolId) (body : Prog Unit)
      (next : Prog α) : Prog α
  /-- Run the body and go on with its result, whatever it is. -/
  | catch {α β : Type} (body : Prog β) (next : Except Failure β → Prog α) : Prog α
  /-- Queue the body. -/
  | later {α : Type} (body : Prog Unit) (next : Prog α) : Prog α
  /-- Run what is queued until nothing is left. -/
  | drain {α : Type} (next : Prog α) : Prog α
  /-- The entity of a slot, made by `factory` and described by `body` if it is new. -/
  | create {α : Type} (slot : Slot) (factory : Prog Entity) (body : Entity → Label → Prog Unit)
      (next : Created → Prog α) : Prog α
  | summon {α : Type} (recipe : Recipe) (next : Created → Prog α) : Prog α

namespace Prog

def bind {α β : Type} (p : Prog α) (f : α → Prog β) : Prog β :=
  match p with
  | .pure a => f a
  | .fail e => .fail e
  | .fresh k => .fresh fun l => (k l).bind f
  | .define key k => .define key fun l => (k l).bind f
  | .emit t k => .emit t (k.bind f)
  | .send m k => .send m (k.bind f)
  | .modelError s t k => .modelError s t (k.bind f)
  | .missingType n k => .missingType n (k.bind f)
  | .setAssemblyFile n file k => .setAssemblyFile n file (k.bind f)
  | .assemblyFile n k => .assemblyFile n fun x => (k x).bind f
  | .openGenerics l k => .openGenerics l fun b => (k b).bind f
  | .snapshot k => .snapshot fun s => (k s).bind f
  | .note n k => .note n (k.bind f)
  | .guarded key body k => .guarded key body (k.bind f)
  | .attempt node symbol body k => .attempt node symbol body (k.bind f)
  | .catch body k => .catch body fun r => (k r).bind f
  | .later body k => .later body (k.bind f)
  | .drain k => .drain (k.bind f)
  | .create slot factory body k => .create slot factory body fun c => (k c).bind f
  | .summon r k => .summon r fun c => (k c).bind f

instance : Monad Prog where
  pure := Prog.pure
  bind := Prog.bind

/-- Go on with a result, or fail as it does. -/
def ofExcept {α : Type} : Except Failure α → Prog α
  | .ok a => .pure a
  | .error e => .fail e

def freshLabel : Prog Label :=
  .fresh .pure

def fact (relation : String) (args : List Value) : Prog Unit :=
  .emit ⟨relation, args⟩ (.pure ())

/-- The entity of a recipe. -/
def entity (recipe : Recipe) : Prog Created :=
  .summon recipe .pure

/-- Run a program on each item of a list. -/
def each {α : Type} (items : List α) (body : α → Prog Unit) : Prog Unit :=
  match items with
  | [] => .pure ()
  | a :: rest => (body a).bind fun _ => each rest body

/-- The results of a program on each item of a list. -/
def collect {α β : Type} (items : List α) (body : α → Prog β) : Prog (List β) :=
  match items with
  | [] => .pure []
  | a :: rest => (body a).bind fun b => (collect rest body).bind fun bs => .pure (b :: bs)

end Prog

end TrapFacts
