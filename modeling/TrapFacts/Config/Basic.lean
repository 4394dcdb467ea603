/-!
Configuration: limits and mode of an extraction, and where its traps go.
-/

namespace TrapFacts

structure ExtractionConfig where
  /-- How many entity creations may be nested. -/
  maxRecursionDepth : Nat := 150
  /-- How many errors are logged before logging stops. -/
  maxErrors : Nat := 1000
  /-- The model is known to be incomplete, so errors in it are no news. -/
  standalone : Bool := false
  checkLabelCollisions : Bool := false
  deriving DecidableEq

inductive Compression where
  | none
  | gzip
  deriving DecidableEq

namespace Compression

instance : Inhabited Compression := ⟨.gzip⟩

def name : Compression → String
  | none => "none"
  | gzip => "gzip"

def ofName? : String → Option Compression
  | "none" => some none
  | "gzip" => some gzip
  | _ => Option.none

/-- What a trap file's name ends in. -/
def extension : Compression → String
  | none => "trap"
  | gzip => "trap.gz"

end Compression

structure OutputConfig where
  compression : Compression := .gzip
  /-- Without it, a unit whose trap file exists is skipped. -/
  overwrite : Bool := true
  /-- How many units are worked on at once; 0 leaves the number open. -/
  threads : Nat := 0
  deriving DecidableEq

structure Config where
  extraction : ExtractionConfig := {}
  output : OutputConfig := {}
  deriving DecidableEq

end TrapFacts
