/-!
How describing an entity interacts with the duplication guards of a trap.
-/

namespace TrapFacts

inductive Behavior where
  /-- Never described inside a guard. -/
  | noScope
  /-- Described inside a guard of its own. -/
  | pushesScope
  /-- Always described inside a guard. -/
  | needsScope
  /-- Described inside or outside a guard. -/
  | optionalScope
  deriving DecidableEq

/-- How one description is to run. -/
structure Plan where
  duplicationGuard : Bool
  /-- Wait in the queue instead of running at once. -/
  deferred : Bool
  /-- A guard is needed and none is open. -/
  missingGuard : Bool
  deriving DecidableEq

namespace Behavior

def name : Behavior → String
  | noScope => "no_scope"
  | pushesScope => "pushes_scope"
  | needsScope => "needs_scope"
  | optionalScope => "optional_scope"

def ofName? : String → Option Behavior
  | "no_scope" => some noScope
  | "pushes_scope" => some pushesScope
  | "needs_scope" => some needsScope
  | "optional_scope" => some optionalScope
  | _ => none

/-- The plan for a description, given whether a guard is open. -/
def plan (guardOpen : Bool) : Behavior → Plan
  | noScope => { duplicationGuard := false, deferred := guardOpen, missingGuard := false }
  | pushesScope => { duplicationGuard := true, deferred := guardOpen, missingGuard := false }
  | needsScope => { duplicationGuard := false, deferred := false, missingGuard := !guardOpen }
  | optionalScope => { duplicationGuard := false, deferred := false, missingGuard := false }

end Behavior

end TrapFacts
