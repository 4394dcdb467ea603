import TrapFacts.Json.Printer
import TrapFacts.Report

/-!
The summary of a run, as text and as JSON.
-/

namespace TrapFacts

structure Summary where
  reports : List Report
  errors : Nat
  missingTypes : List String
  deriving DecidableEq

namespace Report

/-- A report on one line. -/
def line (r : Report) : String :=
  match r.status with
  | .extracted =>
    "extracted  " ++ r.name ++ " -> " ++ r.path ++ " (" ++ toString r.labels ++ " labels, "
      ++ toString r.records ++ " records)"
  | .aborted reason => "aborted    " ++ r.name ++ ": " ++ reason
  | .skipped => "skipped    " ++ r.name ++ " (" ++ r.path ++ " exists)"

def reasonFields : Status → List (String × Json)
  | .aborted reason => [("reason", Json.ofString reason)]
  | _ => []

def statusName : Status → String
  | .extracted => "extracted"
  | .aborted _ => "aborted"
  | .skipped => "skipped"

def toJson (r : Report) : Json :=
  Json.ofFields (
    [("labels", Json.ofNat r.labels), ("name", Json.ofString r.name),
      ("path", Json.ofString r.path)]
    ++ reasonFields r.status
    ++ [("records", Json.ofNat r.records), ("status", Json.ofString (statusName r.status))])

end Report

namespace Summary

def count (s : Summary) (status : String) : Nat :=
  s.reports.countP fun r => Report.statusName r.status = status

def isComplete (s : Summary) : Bool :=
  !s.reports.any Report.isAborted

def missingLines (s : Summary) : List String :=
  if s.missingTypes.isEmpty then []
  else (toString s.missingTypes.length ++ " unresolved types:") ::
    s.missingTypes.map fun name => "  " ++ name

def totals (s : Summary) : String :=
  toString s.reports.length ++ " units: " ++ toString (s.count "extracted") ++ " extracted, "
    ++ toString (s.count "aborted") ++ " aborted, " ++ toString (s.count "skipped")
    ++ " skipped; " ++ toString s.errors ++ " errors"

/-- A line for each unit and each unresolved type, and the totals. -/
def text (s : Summary) : String :=
  "\n".intercalate (s.reports.map Report.line ++ s.missingLines ++ [s.totals])

def toJson (s : Summary) : Json :=
  Json.ofFields [
    ("errors", Json.ofNat s.errors),
    ("missing_types", Json.ofList Json.ofString s.missingTypes),
    ("units", Json.ofList Report.toJson s.reports)]

end Summary

end TrapFacts
