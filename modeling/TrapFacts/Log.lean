import TrapFacts.TrapUnit

/-!
The structured log: messages and the progress of units as events with fields.
-/

namespace TrapFacts

inductive LogValue where
  | text (value : String)
  | number (value : Nat)
  deriving DecidableEq

structure LogEvent where
  severity : Severity
  message : String
  fields : List (String × LogValue)
  deriving DecidableEq

def Severity.levelName : Severity → String
  | .debug => "DEBUG"
  | .info => "INFO"
  | .warning => "WARN"
  | .error => "ERROR"

/-- What a message does not know is logged as an empty text. -/
def Message.logEvent (m : Message) : LogEvent where
  severity := m.severity
  message := m.text
  fields := [
    ("symbol", .text (m.symbol.getD "")),
    ("locations", .text (", ".intercalate m.locations)),
    ("node", .text (m.node.getD "")),
    ("cause", .text (m.cause.getD ""))]

/-- Queued work that is given up is mentioned, if there is any. -/
def discardEvents (pending : Nat) : List LogEvent :=
  if pending = 0 then []
  else [⟨.debug, "discarding deferred population", [("pending", .number pending)]⟩]

/-- The progress of a unit. -/
def Extraction.logEvents (e : Extraction) : List LogEvent :=
  [⟨.debug, "extracting", [("unit", .text e.name)]⟩]
    ++ discardEvents e.discarded
    ++ [⟨.debug, "finished", [
      ("unit", .text e.name),
      ("labels", .number e.stats.labels),
      ("records", .number e.stats.records)]⟩]

end TrapFacts
