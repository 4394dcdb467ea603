import TrapFacts.Config.Toml
import TrapFacts.File.Store

/-!
Finding the config of a project.
-/

namespace TrapFacts

variable {m : Type → Type} [Monad m] [FileStore m]

/-- What the environment says about the user's directories. -/
structure Environment where
  home : Option String := none
  configHome : Option String := none

namespace Environment

/-- The config of the user, below the directory for configs. -/
def globalConfig? (e : Environment) : Option String :=
  (e.configHome.or (e.home.map fun home => Path.below home ".config")).map fun directory =>
    Path.below directory "normalize/trap.toml"

end Environment

namespace Config

/-- The config in a file, if there is such a file. -/
def loadFile (path : String) : m (Except Failure (Option Config)) := do
  match ← FileStore.readText (Path.ofString path) with
  | .ok text => return (parse text).map some
  | .error .notFound => return .ok none
  | .error e => return .error (.io e)

/-- A config that cannot be read is as good as none. -/
def loadFile? (path : String) : m (Option Config) := do
  match ← loadFile path with
  | .ok c => return c
  | .error _ => return none

/-- The config of a project: its own, or the user's, or the default. -/
def load (root : String) (e : Environment) : m Config := do
  match ← loadFile? (Path.below root ".normalize/trap.toml") with
  | some c => return c
  | none =>
    match e.globalConfig? with
    | none => return {}
    | some path => return (← loadFile? path).getD {}

end Config

end TrapFacts
