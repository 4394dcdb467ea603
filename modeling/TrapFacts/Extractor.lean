import TrapFacts.Config.Basic
import TrapFacts.Message

/-!
What the units of one run share: the error count, the assembly table and the missing types.
-/

namespace TrapFacts

structure Extractor where
  config : ExtractionConfig := {}
  /-- How many errors were sent so far. -/
  errors : Nat := 0
  /-- Which file defines an assembly; an earlier entry hides a later one. -/
  assemblyFiles : List (String × String) := []
  /-- In ascending order, each once. -/
  missingTypes : List String := []
  /-- The messages that were let through. -/
  logged : Array Message := #[]

namespace Extractor

def closing (max : Nat) : Message :=
  .info ("Stopping logging after " ++ toString max ++ " errors")

/-- Send a message. The last error that fits the limit is replaced by a closing line; after it
nothing is logged, but errors are still counted. -/
def message (x : Extractor) (m : Message) : Extractor :=
  let errors := if m.severity = .error then x.errors + 1 else x.errors
  let last := m.severity = .error && errors = x.config.maxErrors
  let logged := if last then x.logged.push (closing errors) else x.logged
  { x with
    errors
    logged := if errors < x.config.maxErrors then logged.push m else logged }

def setAssemblyFile (x : Extractor) (name file : String) : Extractor :=
  { x with assemblyFiles := (name, file) :: x.assemblyFiles }

def assemblyFile? (x : Extractor) (name : String) : Option String :=
  x.assemblyFiles.lookup name

/-- Add a text to an ascending list that holds each text once. -/
def insertText (s : String) : List String → List String
  | [] => [s]
  | t :: ts => if s < t then s :: t :: ts else if s = t then t :: ts else t :: insertText s ts

def missingType (x : Extractor) (name : String) : Extractor :=
  { x with missingTypes := insertText name x.missingTypes }

end Extractor

end TrapFacts
