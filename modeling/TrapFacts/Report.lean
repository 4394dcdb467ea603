import TrapFacts.Layout
import TrapFacts.TrapFile
import TrapFacts.TrapUnit

/-!
Runs over many units, one after the other: each unit's trap is written to its own file, and each
unit gets a report.
-/

namespace TrapFacts

variable {m : Type → Type} [Monad m] [FileStore m]

/-- What became of a unit. -/
structure Report where
  name : String
  path : String
  status : Status
  labels : Nat := 0
  records : Nat := 0
  deriving DecidableEq

namespace Report

def isAborted (r : Report) : Bool :=
  match r.status with
  | .aborted _ => true
  | _ => false

/-- The report of a unit whose trap could not be written, and the message about it. -/
def failed (x : Extractor) (name path : String) (e : Failure) : Report × Extractor :=
  ({ name, path, status := .aborted e.message },
    x.message { Message.error ("Failed to extract " ++ name) with cause := some e.message })

/-- The report of a unit whose trap is in place. -/
def ofExtraction (e : Extraction) (path : String) : Report where
  name := e.name
  path
  status := e.status
  labels := e.stats.labels
  records := e.stats.records

end Report

/-- Assembly files that are not set yet are those that the model names. -/
def Extractor.register (x : Extractor) (assemblies : List AssemblyInfo) : Extractor :=
  assemblies.foldl (fun x a =>
    if (x.assemblyFile? a.name).isSome then x else x.setAssemblyFile a.name a.path) x

namespace TrapUnit

/-- Extract a unit into a file that was started for it. -/
def extractInto (unit : TrapUnit) (model : Model) (path : String) (file : TrapFile m)
    (x : Extractor) : m (Report × Extractor) := do
  match unit.extract x model with
  | .error e =>
    file.abandon
    return Report.failed x (unit.name model) path e
  | .ok (extraction, x) =>
    match ← file.finish extraction.trap with
    | .ok () => return (Report.ofExtraction extraction path, x)
    | .error e => return Report.failed x (unit.name model) path (.io e)

/-- Extract a unit into its place, unless something is there that must stay. -/
def deliver (unit : TrapUnit) (model : Model) (layout : Layout) (overwrite : Bool) (x : Extractor) :
    m (Report × Extractor) := do
  let name := unit.name model
  let path := layout.pathFor name
  let target := Path.ofString path
  if !overwrite && (← FileStore.contains target) then
    return ({ name, path, status := .skipped }, x)
  else
    match ← TrapFile.create target layout.compression with
    | .error e => return Report.failed x name path (.io e)
    | .ok file => unit.extractInto model path file x

end TrapUnit

/-- Deliver units one after the other, as a single thread does. What units do side by side is a run
of a `Pool`. -/
def deliverAll (model : Model) (layout : Layout) (overwrite : Bool) :
    List TrapUnit → Extractor → m (List Report × Extractor)
  | [], x => pure ([], x)
  | unit :: units, x => do
    let (report, x) ← unit.deliver model layout overwrite x
    let (reports, x) ← deliverAll model layout overwrite units x
    return (report :: reports, x)

/-- Extract units into an output directory, one after the other. The reports are in the order of the
units. However many threads the configuration asks for, this is one of the runs that
`extractInPool` describes. -/
def extractAll (x : Extractor) (model : Model) (units : List TrapUnit) (layout : Layout)
    (output : OutputConfig) : m (List Report × Extractor) :=
  deliverAll model layout output.overwrite units (x.register model.assemblies)

end TrapFacts
