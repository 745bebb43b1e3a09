import Accelerator.ComputeUnit.Step

/-!
# Units that share their services

A cluster is a row of compute units that work with one instruction model and one memory. A unit is
named by its position, which is also its number.

A sweep visits units in a given order, once in a cycle, and lets go of the work-groups that finish.
It shows what the units of a cluster do on their own, without a device that gives them new work.
-/

namespace Accelerator

structure Cluster (ι μ : Type) where
  units : Array ComputeUnit
  isa : ι
  memory : μ

namespace Cluster

variable {ι μ : Type}

/-- Units that have never worked, numbered from 0. -/
def create (deviceId unitCount laneCount : Nat) (isa : ι) (memory : μ) : Cluster ι μ where
  units := ((List.range unitCount).map fun unit => .create unit deviceId laneCount).toArray
  isa
  memory

def unit (c : Cluster ι μ) (id : Nat) : Except Error ComputeUnit :=
  match c.units[id]? with
  | some u => pure u
  | none => throw (.unknownUnit id)

def setUnit (c : Cluster ι μ) (id : Nat) (u : ComputeUnit) : Cluster ι μ :=
  { c with units := c.units.setIfInBounds id u }

/-- All units evaluate their stages in the given order from now on. -/
def setOrder (c : Cluster ι μ) (order : StageOrder) : Cluster ι μ :=
  { c with units := c.units.map fun u => { u with order } }

/-- Give a unit a work-group. -/
def assign (c : Cluster ι μ) (id group : Nat) (wavefronts : List Wavefront) :
    Except Error (Cluster ι μ) := do
  return c.setUnit id (← (← c.unit id).assign group wavefronts)

/-- Take a finished work-group back from a unit. -/
def release (c : Cluster ι μ) (id : Nat) : Except Error (Option Nat × Cluster ι μ) := do
  let (group, u) := (← c.unit id).release
  return (group, c.setUnit id u)

/-- Let a unit work for one cycle. The answer tells how far it has come, and what its work has led
to; the cluster does not know of it yet. -/
def stepUnit [Sums] [InstructionModel ι] [MemoryService μ] (c : Cluster ι μ) (cycle id : Nat) :
    Except Error (Progress × Bench ι μ) := do
  let bench : Bench ι μ := { unit := ← c.unit id, isa := c.isa, memory := c.memory }
  bench.step cycle

/-- Take over what the work of a unit has led to. -/
def settle (c : Cluster ι μ) (id : Nat) (bench : Bench ι μ) : Cluster ι μ :=
  { c.setUnit id bench.unit with isa := bench.isa, memory := bench.memory }

end Cluster

/-- A work-group has finished on a unit. -/
structure Finish where
  cycle : Nat
  unit : Nat
  group : Nat
deriving DecidableEq, Inhabited

/-- A cluster at work on its own. -/
structure Sweep (ι μ : Type) where
  cluster : Cluster ι μ
  /-- The work-groups that have finished, the earliest first. -/
  finished : Array Finish := #[]
  events : Array TraceEvent := #[]

namespace Sweep

variable {ι μ : Type} [Sums] [InstructionModel ι] [MemoryService μ]

/-- Let a unit work for one cycle, if it holds a work-group, and take the group back when it has
finished. -/
def visit (cycle id : Nat) : Attempt (Sweep ι μ) Unit := do
  let unit ← Attempt.ofExcept ((← get).cluster.unit id)
  if unit.isBusy then
    let (progress, bench) ← Attempt.ofExcept ((← get).cluster.stepUnit cycle id)
    modify fun s => { s with
      cluster := s.cluster.settle id bench
      events := bench.events.foldl Array.push s.events }
    match progress with
    | .running => pure ()
    | .finished group =>
      modify fun s => { s with
        cluster := s.cluster.setUnit id bench.unit.release.2
        finished := s.finished.push { cycle, unit := id, group } }

/-- One cycle: visit the units in order. -/
def runCycle (order : List Nat) (cycle : Nat) : Attempt (Sweep ι μ) Unit :=
  order.forM (visit cycle)

/-- Several cycles in a row. -/
def run (order cycles : List Nat) : Attempt (Sweep ι μ) Unit :=
  cycles.forM (runCycle order)

end Sweep

end Accelerator
