import Accelerator.Cluster
import Accelerator.Config.Basic
import Accelerator.Memory.Model
import Accelerator.NdRange
import Accelerator.Program
import Accelerator.Trace.Sink

/-!
# Devices

A device is a row of compute units, each of which is at any time either idle or busy. It carries a
placement that chooses among the idle units, and a sink that takes its events, and it counts its
cycles over all its runs.

A device is built from a valid configuration only. What it works with can be replaced afterwards.
-/

namespace Accelerator

/-- The launch a device is at work on. -/
structure ActiveLaunch where
  /-- The number that no other launch has. -/
  launch : Nat
  /-- The number the user gave. -/
  id : Nat
deriving DecidableEq, Inhabited

structure Device (ι μ π : Type) where
  id : Nat
  config : DeviceConfig
  cluster : Cluster ι μ
  /-- The units without a work-group, in the order in which they became idle. -/
  idle : UnitSet
  /-- The units with a work-group, in the order in which they were given it. -/
  busy : UnitSet
  placement : π
  sink : Sink := .discard
  active : Option ActiveLaunch := none
  /-- How many cycles the device has run. -/
  cycle : Nat := 0

/-- What a device has done since it was built. -/
structure RunStats where
  cycles : Nat
  groups : Nat
  instructions : Nat
  requests : Nat
  /-- For each unit, the number of cycles in which it was at work. -/
  busyCycles : List Nat
deriving DecidableEq, Inhabited

namespace Device

variable {ι μ π : Type}

/-- A device whose units are all idle. Refused for a configuration that is not valid. -/
def build (id : Nat) (config : DeviceConfig) (isa : ι) (memory : μ) (placement : π) :
    Except Error (Device ι μ π) := do
  config.validate
  return {
    id, config, placement
    cluster := .create id config.computeUnits config.streamCores isa memory
    idle := .full config.computeUnits
    busy := .empty config.computeUnits }

/-- A device with an empty program, a memory of the default configuration and the placement that its
configuration names. -/
def create (id : Nat) (config : DeviceConfig) : Except Error (Device Program MemoryModel Placer) :=
  build id config (.synthetic (.ofKinds [])) (.hierarchy (.create {})) config.placement.build

/-- A device of `units` units with `lanes` lanes each, for wavefronts of the default size rounded up
to whole turns of the lanes. -/
def ofUnits (id units lanes : Nat) : Except Error (Device Program MemoryModel Placer) :=
  match DeviceConfig.ofUnits? units lanes with
  | some config => create id config
  | none => throw (.fault .zeroDivisor)

/-- A device with the program and the memory of a configuration. -/
def ofConfig (id : Nat) (c : SimConfig) : Except Error (Device Program MemoryModel Placer) :=
  build id c.device (.synthetic (.ofKinds c.kernel.program)) (.hierarchy (.create c.memory))
    c.device.placement.build

def withIsa {ι' : Type} (d : Device ι μ π) (isa : ι') : Device ι' μ π :=
  { d with cluster := { d.cluster with isa } }

def withMemory {μ' : Type} (d : Device ι μ π) (memory : μ') : Device ι μ' π :=
  { d with cluster := { d.cluster with memory } }

def withPlacement {π' : Type} (d : Device ι μ π) (placement : π') : Device ι μ π' :=
  { d with placement }

def withSink (d : Device ι μ π) (sink : Sink) : Device ι μ π := { d with sink }

def withOrder (d : Device ι μ π) (order : StageOrder) : Device ι μ π :=
  { d with cluster := d.cluster.setOrder order }

def units (d : Device ι μ π) : List ComputeUnit := d.cluster.units.toList

/-- A count of the units, added up over all of them. -/
def total (d : Device ι μ π) (count : UnitStats → Nat) : Nat :=
  d.units.foldr (fun u sum => count u.stats + sum) 0

/-- What the units have done, added up. -/
def stats (d : Device ι μ π) : RunStats where
  cycles := d.cycle
  groups := d.total (·.groups)
  instructions := d.total (·.instructions)
  requests := d.total (·.requests)
  busyCycles := d.units.map fun u => u.stats.busyCycles

end Device

end Accelerator
