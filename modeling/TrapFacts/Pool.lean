import TrapFacts.Report

/-!
Pools: the units of a run at work side by side, in any order. Between two file operations of one
unit others may do theirs. A unit that was not begun waits for a thread.
-/

namespace TrapFacts

/-- What a program does to files, operation by operation. -/
inductive Task (α : Type) where
  | done (result : α)
  | call (operation : FileCall) (next : operation.Answer → Task α)

namespace Task

variable {α β : Type}

def bind (task : Task α) (f : α → Task β) : Task β :=
  match task with
  | .done a => f a
  | .call operation next => .call operation fun answer => (next answer).bind f

instance : Monad Task where
  pure := .done
  bind := bind

def result? : Task α → Option α
  | .done a => some a
  | .call _ _ => none

@[simp]
theorem result?_done (a : α) : (Task.done a).result? = some a :=
  rfl

/-- One operation. -/
def once (operation : FileCall) : Task operation.Answer :=
  .call operation .done

/-- Accept a directory that is there by now. -/
def orExisting (directory : Path) : Option IoError → Task (Option IoError)
  | none => .done none
  | some e => do
    let found : Bool ← once (.containsDirectory directory)
    return if found then none else some e

def makeDirectory (path : Path) : Task (Option IoError) :=
  once (.makeDirectory path)

/-- Make the directory that the first `n` steps of a path lead to. If what it is made in is missing,
make that before. -/
def makeDirectories (path : Path) : (n : Nat) → Task (Option IoError)
  | 0 => .done none
  | n + 1 => do
    let directory := path.take (n + 1)
    match ← makeDirectory directory with
    | some .notFound =>
      match ← makeDirectories path n with
      | some e => return some e
      | none => orExisting directory (← makeDirectory directory)
    | answer => orExisting directory answer

instance : FileStore Task where
  Draft := Place
  readText path := once (.readText path)
  contains path := once (.contains path)
  makeDirectories path := makeDirectories path path.steps.length
  createTemporary directory := once (.createTemporary directory)
  write draft content := once (.write draft content)
  move draft target := once (.move draft target)
  discard draft := once (.discard draft)

end Task

/-- A task, and whether a thread has taken it up. -/
structure Worker (α : Type) where
  task : Task α
  begun : Bool := false

/-- Whether a thread is at work on a task. -/
def Worker.isBusy {α : Type} (w : Worker α) : Bool :=
  w.begun && w.task.result?.isNone

structure Pool (α : Type) where
  workers : List (Worker α)
  tree : FileTree

namespace Pool

variable {α : Type}

def start (tasks : List (Task α)) (tree : FileTree) : Pool α where
  workers := tasks.map fun task => { task }
  tree

/-- Whether a thread is free. Zero threads are as many as are wanted. -/
def hasThread (threads : Nat) (s : Pool α) : Bool :=
  threads = 0 || s.workers.countP (·.isBusy) < threads

/-- The next operation of a worker, if there is one. -/
def advance (threads : Nat) (s : Pool α) (i : Nat) : Pool α :=
  match s.workers[i]? with
  | some ⟨.call operation next, begun⟩ =>
    if begun || s.hasThread threads then
      let (answer, tree) := operation.run.run s.tree
      { workers := s.workers.set i { task := next answer, begun := true }, tree }
    else s
  | _ => s

/-- Let workers go on, each time the one whose turn it is. -/
def run (threads : Nat) (schedule : List Nat) (s : Pool α) : Pool α :=
  schedule.foldl (advance threads) s

/-- What came out of the tasks, when all are done. -/
def results? (s : Pool α) : Option (List α) :=
  s.workers.mapM (·.task.result?)

end Pool

/-- What a unit does in a pool. What comes out of it does not depend on the messages of others, so
the extractor is the one that the run started with. -/
def TrapUnit.deliveryTask (unit : TrapUnit) (model : Model) (layout : Layout) (overwrite : Bool)
    (x : Extractor) : Task Report := do
  let (report, _) ← unit.deliver (m := Task) model layout overwrite x
  return report

/-- Extract units into an output directory side by side, in the order that a schedule gives to their
file operations. -/
def extractInPool (x : Extractor) (model : Model) (units : List TrapUnit) (layout : Layout)
    (output : OutputConfig) (schedule : List Nat) (tree : FileTree) : Pool Report :=
  let x := x.register model.assemblies
  let tasks := units.map fun unit => unit.deliveryTask model layout output.overwrite x
  (Pool.start tasks tree).run output.threads schedule

end TrapFacts
