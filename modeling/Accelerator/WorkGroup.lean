import Accelerator.Wavefront

/-!
# Work-groups

A work-group is the unit of dispatch: a block of work-items that runs on one compute unit. It waits,
runs and is done, in this order, and remembers the compute unit from the moment it runs.
-/

namespace Accelerator

/-- Where a work-group stands. -/
inductive Status where
  | pending
  | running
  | done
deriving DecidableEq, Inhabited

namespace Status

/-- The status as it is shown to people. -/
def text : Status → String
  | pending => "pending"
  | running => "running"
  | done => "done"

/-- The status as it is written into documents. -/
def name : Status → String
  | pending => "Pending"
  | running => "Running"
  | done => "Done"

end Status

/-- How far a work-group has come, and on which compute unit. A group that waits has none. -/
inductive Phase where
  | pending
  | running (unit : Nat)
  | done (unit : Nat)
deriving DecidableEq, Inhabited

namespace Phase

def status : Phase → Status
  | pending => .pending
  | running _ => .running
  | done _ => .done

/-- The compute unit the group was dispatched to. -/
def unit? : Phase → Option Nat
  | pending => none
  | running unit => some unit
  | done unit => some unit

end Phase

/-- The unit of dispatch. -/
structure WorkGroup where
  id : Nat
  /-- Position in the grid of groups. -/
  index : Dim3
  phase : Phase := .pending
  /-- The group's part of the launch's table of wavefronts. -/
  wavefronts : Span
deriving DecidableEq, Inhabited

namespace WorkGroup

def status (g : WorkGroup) : Status := g.phase.status

/-- The compute unit the group was dispatched to. -/
def unit? (g : WorkGroup) : Option Nat := g.phase.unit?

end WorkGroup

end Accelerator
