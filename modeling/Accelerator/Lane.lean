import Accelerator.Instruction

/-!
# Lanes

A lane, or stream core, is one column of a compute unit. In every turn of the execute stage it either
processes one work-item or idles, and it shows what it does until the next turn.
-/

namespace Accelerator

/-- What a lane processes. -/
structure LaneWork where
  wavefront : Nat
  /-- Global number of the work-item. -/
  item : Nat
  kind : InstKind
  cycle : Nat
deriving DecidableEq, Inhabited

structure Lane where
  id : Nat
  /-- The compute unit the lane belongs to. -/
  unit : Nat
  current : Option LaneWork := none
  /-- How many work-items the lane has ever processed. -/
  ops : Nat := 0
deriving DecidableEq, Inhabited

namespace Lane

def issue (lane : Lane) (work : LaneWork) : Lane :=
  { lane with current := some work, ops := lane.ops + 1 }

def idle (lane : Lane) : Lane := { lane with current := none }

def isActive (lane : Lane) : Bool := lane.current.isSome

/-- Spread a run of items over a row of lanes, one item each from the first lane on. Lanes that are
left over idle. -/
def issueAll (lanes : List Lane) (items : Span) (work : Nat → LaneWork) : List Lane :=
  lanes.mapIdx fun i lane =>
    if items.start + i < items.stop then lane.issue (work (items.start + i)) else lane.idle

end Lane

end Accelerator
