import TrapFacts.Log
import TrapFacts.Main
import TrapFacts.Script
import TrapFacts.Proofs.Engine.Guards
import TrapFacts.Proofs.Engine.Identity
import TrapFacts.Proofs.Unit.WellFormed
import TrapFacts.Proofs.Unit.Described
import TrapFacts.Proofs.Unit.Reachable
import TrapFacts.Proofs.Unit.Placed
import TrapFacts.Proofs.Unit.Portable
import TrapFacts.Proofs.Unit.Independent
import TrapFacts.Proofs.Engine.Recovery
import TrapFacts.Proofs.Engine.Course
import TrapFacts.Proofs.Engine.Queue
import TrapFacts.Proofs.Engine.Scoping
import TrapFacts.Proofs.Unit.Enclosed
import TrapFacts.Proofs.Engine.Raised
import TrapFacts.Proofs.Unit.Conduct
import TrapFacts.Proofs.Unit.Backlog
import TrapFacts.Proofs.Unit.Raised
import TrapFacts.Proofs.Unit.Aborted
import TrapFacts.Proofs.Unit.Shallow
import TrapFacts.Proofs.Unit.Spacious
import TrapFacts.Proofs.Unit.Chained
import TrapFacts.Proofs.Unit.Pruned
import TrapFacts.Proofs.Trap.Reading
import TrapFacts.Proofs.Unit.Identifying
import TrapFacts.Proofs.Report.Kept
import TrapFacts.Proofs.Pool.Untouched
import TrapFacts.Proofs.Unit.Terminating
import TrapFacts.Proofs.Unit.Exact
import TrapFacts.Proofs.Model.Forms
import TrapFacts.Proofs.Unit.Collisions
import TrapFacts.Proofs.Unit.Measured
import TrapFacts.Proofs.Unit.Arguments
import TrapFacts.Proofs.Unit.Repeated
import TrapFacts.Proofs.Report.Capped
import TrapFacts.Proofs.File.Below
import TrapFacts.Proofs.Unit.Renumbered
