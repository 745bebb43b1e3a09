import Accelerator.ComputeUnit.Basic

/-!
# What a unit does in a cycle

A cycle starts with a plan, made from committed values alone: which stages take a slot out of the
latch before them. A stage does so if there is a slot and if the latch after it is free, or is made
free by the next stage in this same cycle. Back-pressure therefore runs from the last stage to the
first, and since the plan is made before any stage works, the stages can then be evaluated in any
order.
-/

namespace Accelerator

structure Plan where
  /-- The wavefront that issues an instruction. -/
  issue : Option Nat
  fetch : Bool
  decode : Bool
  read : Bool
  /-- The execute stage takes up a new slot. -/
  execute : Bool
  /-- The execute stage may hand its slot on. -/
  canEmit : Bool
  write : Bool
deriving DecidableEq, Inhabited

namespace ComputeUnit

def isIssuableAt (u : ComputeUnit) (index : Nat) : Bool :=
  u.wavefronts[index]?.any Resident.isIssuable

/-- The first of `n` positions, starting at `index` and going round, whose wavefront can issue. -/
def issuableFrom (u : ComputeUnit) : (n index : Nat) → Option Nat
  | 0, _ => none
  | n + 1, index =>
    if u.isIssuableAt index then some index
    else u.issuableFrom n ((index + 1) % u.wavefronts.size)

/-- The wavefront whose turn it is to issue: the first, from the cursor on, that can. -/
def nextIssuable (u : ComputeUnit) : Option Nat :=
  u.issuableFrom u.wavefronts.size (u.cursor % u.wavefronts.size)

/-- The plan of the next cycle. -/
def plan (u : ComputeUnit) : Plan :=
  let occupied := u.latches.isOccupied
  let write := occupied .execute
  let execute := occupied .read && u.executing.isNone
  let read := occupied .decode && (!occupied .read || execute)
  let decode := occupied .fetch && (!occupied .decode || read)
  let fetch := occupied .schedule && (!occupied .fetch || decode)
  { write, execute, read, decode, fetch
    canEmit := !occupied .execute || write
    issue := if !occupied .schedule || fetch then u.nextIssuable else none }

end ComputeUnit

end Accelerator
