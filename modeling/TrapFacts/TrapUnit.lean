import TrapFacts.Entity.Facts

/-!
Units: what one trap covers, and how it is extracted.
-/

namespace TrapFacts

inductive TrapUnit where
  | source (tree : TreeId)
  | assembly (name : String)
  | compilation
  deriving DecidableEq

inductive Status where
  | extracted
  /-- A fatal failure ended the unit; the trap holds what came before it. -/
  | aborted (reason : String)
  | skipped
  deriving DecidableEq

/-- What came out of a unit. -/
structure Extraction where
  name : String
  status : Status
  stats : Stats
  trap : List Record
  /-- Queued work that was given up. -/
  discarded : Nat

/-- The file of an assembly: the one set for it, else the one the model names, else none. -/
def assemblyPath (x : Extractor) (m : Model) (name : String) : String :=
  ((x.assemblyFile? name).or ((m.assembly? name).map (·.path))).getD ""

/-- Visit a symbol declared at the top level of a file, or in a namespace visited before. Namespaces
that do not contain themselves are nested no deeper than the table is long. -/
def visitSymbol (m : Model) (scope : Scope) : (depth : Nat) → SymbolId → Prog Unit
  | 0, _ => .pure ()
  | depth + 1, symbol => do
    let s ← Prog.ofExcept (m.symbol symbol)
    if s.kind = .space then
      let _ ← Prog.entity (.space symbol)
      Prog.each s.members fun member => do
        if ← Prog.ofExcept (scope.defines m member) then
          .attempt none (some member) (visitSymbol m scope depth member) (.pure ())
    else if s.kind.isType then
      let _ ← m.typeLabel symbol
    else if s.kind.isMethod then
      let _ ← Prog.entity (.method symbol)
    else
      .modelError (some symbol) ("Unhandled top-level " ++ s.kind.name ++ " symbol") (.pure ())

/-- Visit a symbol and what its namespaces hold. -/
def extractSymbol (m : Model) (scope : Scope) (symbol : SymbolId) : Prog Unit :=
  visitSymbol m scope (m.symbols.length + 1) symbol

/-- One fact for each file, in order. -/
def compiledFileFacts (relation : String) (label : Label) (paths : List String) : Prog Unit :=
  Prog.each paths.zipIdx fun (path, index) => do
    let file ← Prog.entity (.file path)
    Prog.fact relation [.label label, .index index, .label file.label]

/-- The compilation is no entity of any other trap, so its label is fresh. -/
def extractCompilation (m : Model) : Prog Label := do
  let label ← Prog.freshLabel
  Prog.fact "compilations" [.label label, .text m.compilation.workingDirectory]
  Prog.each m.compilation.args.zipIdx fun (arg, index) =>
    Prog.fact "compilation_args" [.label label, .index index, .text arg]
  compiledFileFacts "compilation_compiling_files" label (m.trees.map (·.path))
  compiledFileFacts "compilation_referencing_files" label m.compilation.references
  return label

/-- How many descriptions can be queued at most: each symbol has one as a type or method and one
as a namespace, each path one as a file, and the assembly of the unit has one. -/
def Model.drainBudget (m : Model) : Nat :=
  2 * m.symbols.length + m.trees.length + m.assemblies.length + m.compilation.references.length + 4

namespace TrapUnit

/-- Every unit of a model: the trees, the assemblies, the compilation. -/
def all (m : Model) : List TrapUnit :=
  m.treeIds.map source ++ m.assemblies.map (fun a => assembly a.name) ++ [compilation]

/-- The name of a unit, by which its trap is placed. -/
def name (m : Model) : TrapUnit → String
  | source tree =>
    match m.tree tree with
    | .ok t => t.path
    | .error _ => tree.text
  | assembly name => name
  | compilation => "compilation"

/-- The compilation belongs to the assembly that it produces. -/
def scope (x : Extractor) (m : Model) : TrapUnit → Except Failure Scope
  | source tree =>
    match m.tree tree with
    | .ok t => .ok (.source tree t.path)
    | .error e => .error e
  | assembly name => .ok (.assembly name (assemblyPath x m name))
  | compilation =>
    match m.assemblies.head? with
    | some output => .ok (.assembly output.name (assemblyPath x m output.name))
    | none => .ok (.assembly "" "")

/-- What a unit starts from. -/
def root (m : Model) (scope : Scope) : TrapUnit → Prog Unit
  | source tree => do
    let t ← Prog.ofExcept (m.tree tree)
    let _ ← Prog.entity (.file t.path)
    Prog.each t.members fun member =>
      .attempt none (some member) (extractSymbol m scope member) (.pure ())
  | assembly name => do
    let _ ← Prog.entity (.assembly name)
  | compilation => do
    let _ ← extractCompilation m

/-- All that a unit does: its root, and what was queued on the way. -/
def program (m : Model) (scope : Scope) (unit : TrapUnit) : Prog Unit := do
  unit.root m scope
  .drain (.pure ())

/-- The run of a unit's program in a fresh context, where so many queued actions may follow one
another. -/
def runIn (unit : TrapUnit) (m : Model) (scope : Scope) (x : Extractor) (budget : Nat) :
    Reply Unit :=
  (World.ofModel m scope).run budget (unit.program m scope) { extractor := x }

/-- The status that a run ends with, and the context after the last report. -/
def conclude (m : Model) (name : String) : Reply Unit → Status × Context
  | ⟨.done (), cx⟩ => (.extracted, cx)
  | ⟨.failed e, cx⟩ =>
    if e.isFatal then
      (.aborted e.message,
        cx.send { Message.error ("Aborted extraction of " ++ name) with cause := some e.message }
          none)
    else (.extracted, cx.send (m.failureMessage e none none) none)
  | ⟨.exhausted, cx⟩ => (.aborted "too much queued work", cx)

/-- The status of a unit that was extracted in a scope, and the context it leaves. -/
def finish (unit : TrapUnit) (m : Model) (scope : Scope) (x : Extractor) (budget : Nat) :
    Status × Context :=
  conclude m (unit.name m) (unit.runIn m scope x budget)

/-- Extract a unit. It fails only if it has no scope. -/
def extract (x : Extractor) (m : Model) (unit : TrapUnit) (budget : Nat := m.drainBudget) :
    Except Failure (Extraction × Extractor) :=
  match unit.scope x m with
  | .error e => .error e
  | .ok scope =>
    let (status, cx) := unit.finish m scope x budget
    .ok ({ name := unit.name m, status, stats := cx.stats, trap := cx.trap,
           discarded := cx.queue.length },
      cx.extractor)

end TrapUnit

end TrapFacts
