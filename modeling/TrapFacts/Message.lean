/-!
Diagnostic messages.
-/

namespace TrapFacts

inductive Severity where
  | debug
  | info
  | warning
  | error
  deriving DecidableEq

namespace Severity

def name : Severity → String
  | debug => "debug"
  | info => "info"
  | warning => "warning"
  | error => "error"

def ofName? : String → Option Severity
  | "debug" => some debug
  | "info" => some info
  | "warning" => some warning
  | "error" => some error
  | _ => none

/-- The place of a severity in the order from the least to the gravest. -/
def rank : Severity → Nat
  | debug => 0
  | info => 1
  | warning => 2
  | error => 3

end Severity

/-- A diagnostic: its text, and what whoever noticed the failure knew about it. -/
structure Message where
  severity : Severity
  text : String
  /-- Display name of the symbol at work. -/
  symbol : Option String := none
  /-- Where that symbol is declared. -/
  locations : List String := []
  node : Option String := none
  cause : Option String := none
  deriving DecidableEq

namespace Message

def error (text : String) : Message :=
  { severity := .error, text }

def warning (text : String) : Message :=
  { severity := .warning, text }

def info (text : String) : Message :=
  { severity := .info, text }

end Message

end TrapFacts
