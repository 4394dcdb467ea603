import TrapFacts.Config.Basic
import TrapFacts.File.Path

/-!
Where traps go: a unit's trap has the unit's name, below the output directory.
-/

namespace TrapFacts

structure Layout where
  directory : String
  compression : Compression := .gzip

namespace Layout

/-- The place of a unit below the output directory. What leads upwards or to the root is left out
of its name. -/
def relativeSteps (name : String) : List String :=
  match Path.properNames name with
  | [] => ["unnamed"]
  | steps => steps

/-- The path of a unit's trap. -/
def pathFor (l : Layout) (name : String) : String :=
  Path.lead l.directory ++ "/".intercalate (relativeSteps name) ++ "." ++ l.compression.extension

end Layout

end TrapFacts
