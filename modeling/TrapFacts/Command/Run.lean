import TrapFacts.Command.Options
import TrapFacts.Command.Summary
import TrapFacts.Config.Load
import TrapFacts.File.Store
import TrapFacts.Model.Json

/-!
The command: read a config and a model, extract units and tell what became of them.
-/

namespace TrapFacts

variable {m : Type → Type} [Monad m] [FileStore m]

/-- Read a model from a file. -/
def Model.load (path : String) : m (Except Failure Model) := do
  match ← FileStore.readText (Path.ofString path) with
  | .ok text => return parse text
  | .error e => return .error (.io e)

/-- What a command leaves behind besides its files. -/
structure CommandResult where
  code : Nat := 0
  output : String := ""
  errors : String := ""
  deriving DecidableEq

/-- Why a command does not start to extract. -/
inductive CommandError where
  | config (cause : Failure)
  | model (path : String) (cause : Failure)
  | unknownSource (path : String)
  | unknownAssembly (name : String)
  deriving DecidableEq

def CommandError.message : CommandError → String
  | config cause => cause.message
  | model path cause => "cannot load " ++ path ++ ": " ++ cause.message
  | unknownSource path => "source file not in model: " ++ path
  | unknownAssembly name => "assembly not in model: " ++ name

/-- The name and version of the command. -/
def commandVersion : String :=
  "normalize-trap 0.2.0\n"

/-- How the command is used. -/
def commandHelp : String :=
  "\n".intercalate [
    "Extract a semantic model into trap files",
    "",
    "Usage: normalize-trap [OPTIONS] --model <MODEL> --out <OUT>",
    "",
    "Options:",
    "      --model <MODEL>      Semantic model (JSON) produced by a frontend",
    "  -o, --out <OUT>          Directory trap files are written to",
    "      --source <PATH>      Extract this source file (repeatable)",
    "      --assembly <NAME>    Extract this assembly (repeatable)",
    "      --compilation        Extract the compilation unit",
    "      --threads <THREADS>  Worker threads (overrides config)",
    "      --config <CONFIG>    Config file " ++
      "(default: .normalize/trap.toml, then the global config)",
    "      --standalone         Tolerate an incomplete model",
    "      --json               Print the report as JSON",
    "  -h, --help               Print help",
    "  -V, --version            Print version",
    ""]

namespace Options

/-- The options have the last word over what a config says. -/
def adjust (o : Options) (c : Config) : Config where
  extraction := { c.extraction with standalone := c.extraction.standalone || o.standalone }
  output := { c.output with threads := o.threads.getD c.output.threads }

/-- The config that is asked for, which must be there, or else the config of the project. -/
def loadConfig (o : Options) (e : Environment) : m (Except CommandError Config) := do
  match o.config with
  | none => return .ok (o.adjust (← Config.load "." e))
  | some path =>
    match ← Config.loadFile path with
    | .ok (some c) => return .ok (o.adjust c)
    | .ok none => return .error (.config (.io (.other ("config file not found: " ++ path))))
    | .error e => return .error (.config e)

/-- The unit of the first source file with a path. -/
def findSource (model : Model) (path : String) : Except CommandError TrapUnit :=
  match model.trees.findIdx? (·.path == path) with
  | some index => .ok (.source ⟨index⟩)
  | none => .error (.unknownSource path)

def findAssembly (model : Model) (name : String) : Except CommandError TrapUnit :=
  match model.assembly? name with
  | some _ => .ok (.assembly name)
  | none => .error (.unknownAssembly name)

/-- The units that are asked for: files, then assemblies, then the compilation; else all. -/
def units (o : Options) (model : Model) : Except CommandError (List TrapUnit) :=
  if o.sources.isEmpty && o.assemblies.isEmpty && !o.compilation then .ok (TrapUnit.all model)
  else do
    let sources ← o.sources.mapM (findSource model)
    let assemblies ← o.assemblies.mapM (findAssembly model)
    return sources ++ assemblies ++ if o.compilation then [.compilation] else []

/-- Extract the units and sum up. -/
def extract (o : Options) (c : Config) (model : Model) (units : List TrapUnit) : m Summary := do
  let layout : Layout := { directory := o.out, compression := c.output.compression }
  let (reports, x) ← extractAll { config := c.extraction } model units layout c.output
  return { reports, errors := x.errors, missingTypes := x.missingTypes }

/-- Do what is asked for. -/
def execute (o : Options) (e : Environment) : m (Except CommandError Summary) := do
  match ← o.loadConfig e with
  | .error e => return .error e
  | .ok c =>
    match ← Model.load o.model with
    | .error e => return .error (.model o.model e)
    | .ok model =>
      match o.units model with
      | .error e => return .error e
      | .ok units => return .ok (← o.extract c model units)

end Options

/-- The result of a run that came to its end. -/
def Summary.result (s : Summary) (json : Bool) : CommandResult where
  code := if s.isComplete then 0 else 1
  output := (if json then s.toJson.renderIndented else s.text) ++ "\n"

/-- Run the command. -/
def runCommand (args : List String) (e : Environment) : m CommandResult := do
  match Options.parse args with
  | .error .help => return { output := commandHelp }
  | .error .version => return { output := commandVersion }
  | .error (.usage cause) => return { code := 2, errors := cause.message ++ "\n" }
  | .ok o =>
    match ← o.execute e with
    | .error cause => return { code := 1, errors := cause.message ++ "\n" }
    | .ok summary => return summary.result o.json

end TrapFacts
