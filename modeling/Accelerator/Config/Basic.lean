import Accelerator.Error
import Accelerator.Memory.Hierarchy
import Accelerator.Placement

/-!
# Configuration

A configuration has four sections: the device, its memory, the run and the kernel. Every value has a
default, so that nothing has to be written to describe a device that runs a small vector kernel.

Only the device section can be wrong in itself. `DeviceConfig.validate` says whether it is, and names
the first thing that is.
-/

namespace Accelerator

/-- The shape of a device. -/
structure DeviceConfig where
  computeUnits : Nat := 20
  /-- Lanes per compute unit. -/
  streamCores : Nat := 16
  wavefrontSize : Nat := 64
  /-- The largest work-group, in work-items, that a compute unit takes. -/
  maxGroupSize : Nat := 256
  placement : PlacementPolicy := .firstIdle
deriving DecidableEq, Inhabited

namespace DeviceConfig

/-- A device can be built: it has units and lanes, whole turns of the lanes make up a wavefront, and
some work-group is small enough. -/
def validate (c : DeviceConfig) : Except Error Unit :=
  if c.computeUnits = 0 then
    throw (.invalidConfig "device needs at least one compute unit")
  else if c.streamCores = 0 then
    throw (.invalidConfig "compute units need at least one stream core")
  else if c.wavefrontSize = 0 ∨ c.wavefrontSize % c.streamCores ≠ 0 then
    throw (.invalidConfig ("wavefront size " ++ toString c.wavefrontSize
      ++ " is not a multiple of " ++ toString c.streamCores ++ " stream cores"))
  else if c.maxGroupSize = 0 then
    throw (.invalidConfig "max work-group size is zero")
  else
    pure ()

/-- How many sub-wavefronts a full wavefront has. Undefined where the low 32 bits of the lane count
are zero. -/
def subwavefronts? (c : DeviceConfig) : Option Nat :=
  if laneWord c.streamCores = 0 then none else some (c.wavefrontSize / laneWord c.streamCores)

/-- A device of `units` units with `lanes` lanes each. Its wavefronts have the default size, rounded
up to whole turns of the lanes. Undefined where the low 32 bits of the lane count are zero, since the
rounding divides by them. -/
def ofUnits? (units lanes : Nat) : Option DeviceConfig :=
  let width := laneWord (max lanes 1)
  if width = 0 then none
  else some {
    computeUnits := units
    streamCores := lanes
    wavefrontSize := ceilDiv defaultWavefrontSize width * width }

end DeviceConfig

/-- How long to run. -/
structure RunConfig where
  /-- Suspend the run after this many cycles. -/
  maxCycles : Option Nat := none
  /-- Cycles between two snapshots of a run in progress; 0 for none. -/
  metricsInterval : Nat := 0
deriving DecidableEq, Inhabited

/-- What to run. -/
structure KernelConfig where
  name : String := "vec_add"
  globalSize : Dim3 := ⟨4096, 1, 1⟩
  localSize : Dim3 := ⟨256, 1, 1⟩
  program : List InstKind := [.load, .load, .alu, .store]
deriving DecidableEq, Inhabited

structure SimConfig where
  device : DeviceConfig := {}
  memory : MemoryConfig := {}
  run : RunConfig := {}
  kernel : KernelConfig := {}
deriving DecidableEq, Inhabited

end Accelerator
