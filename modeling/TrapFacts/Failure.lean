import TrapFacts.Handle

/-!
Failures of an extraction and their wording. A fatal failure ends the unit at work.
-/

namespace TrapFacts

/-- What a file operation can fail with. -/
inductive IoError where
  | notFound
  | busy
  | alreadyExists
  | notDirectory
  | isDirectory
  | nameTooLong
  | invalidText
  | other (text : String)
  deriving DecidableEq

def IoError.message : IoError → String
  | notFound => "No such file or directory (os error 2)"
  | busy => "Device or resource busy (os error 16)"
  | alreadyExists => "File exists (os error 17)"
  | notDirectory => "Not a directory (os error 20)"
  | isDirectory => "Is a directory (os error 21)"
  | nameTooLong => "File name too long (os error 36)"
  | invalidText => "stream did not contain valid UTF-8"
  | other text => text

inductive Failure where
  /-- The model has a shape that the extraction does not handle. -/
  | internal (message : String) (symbol : Option SymbolId) (node : Option NodeId)
  | unknownSymbol (id : SymbolId)
  | unknownTree (id : TreeId)
  | recursionLimit (max : Nat)
  | io (cause : IoError)
  | invalidModel
  | invalidConfig
  deriving DecidableEq

namespace Failure

/-- A failure found at a symbol. -/
def internalAt (symbol : SymbolId) (message : String) : Failure :=
  .internal message (some symbol) none

/-- What a syntax error in a model or a config says of itself is left to its reader. -/
def message : Failure → String
  | internal message _ _ => message
  | unknownSymbol id => "unknown " ++ id.text
  | unknownTree id => "unknown " ++ id.text
  | recursionLimit max => "maximum nesting depth of " ++ toString max ++ " exceeded"
  | io cause => "trap output failed: " ++ cause.message
  | invalidModel => "invalid semantic model: "
  | invalidConfig => "invalid config: "

def isFatal : Failure → Bool
  | recursionLimit _ => true
  | io _ => true
  | _ => false

/-- The symbol that the failure itself points at. -/
def symbol? : Failure → Option SymbolId
  | internal _ symbol _ => symbol
  | unknownSymbol id => some id
  | _ => none

def node? : Failure → Option NodeId
  | internal _ _ node => node
  | _ => none

end Failure

end TrapFacts
