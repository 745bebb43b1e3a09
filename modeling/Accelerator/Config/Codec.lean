import Accelerator.Config.Basic
import Accelerator.Document.Decode

/-!
# Configurations as documents

Each section is a record with a default for every field, in JSON and TOML alike. What is read is not
validated here.
-/

namespace Accelerator

/-- Extents written as an array of three. -/
def Dim3.ofArray? (dialect : Dialect) (t : Tree) : Option Dim3 :=
  (t.triple? dialect (Tree.natural? countBound)).map fun (x, y, z) => ⟨x, y, z⟩

/-- Extents as an array of three. -/
def Dim3.toArray (d : Dim3) : Tree := .list (d.toList.map .natural)

/-- Extents written as a record. -/
def Dim3.ofTree? (dialect : Dialect) (t : Tree) : Option Dim3 := do
  let count := Tree.natural? countBound
  match ← t.fields? dialect ["x", "y", "z"] false with
  | [x, y, z] => return ⟨← required count x, ← required count y, ← required count z⟩
  | _ => none

def Dim3.toTree (d : Dim3) : Tree :=
  .table [("x", .natural d.x), ("y", .natural d.y), ("z", .natural d.z)]

/-- A value that may be absent, written as `null` then. -/
def Tree.ofOption {α : Type} (write : α → Tree) : Option α → Tree
  | some a => write a
  | none => .null

namespace DeviceConfig

def fieldNames : List String :=
  ["num_compute_units", "num_stream_cores", "wavefront_size", "max_work_group_size", "placement"]

def ofTree? (dialect : Dialect) (t : Tree) : Option DeviceConfig := do
  let default : DeviceConfig := {}
  let count := Tree.natural? countBound
  let word := Tree.natural? wordBound
  match ← t.fields? dialect fieldNames true with
  | [computeUnits, streamCores, wavefrontSize, maxGroupSize, placement] =>
    return {
      computeUnits := ← fieldOr default.computeUnits word computeUnits
      streamCores := ← fieldOr default.streamCores word streamCores
      wavefrontSize := ← fieldOr default.wavefrontSize count wavefrontSize
      maxGroupSize := ← fieldOr default.maxGroupSize count maxGroupSize
      placement := ← fieldOr default.placement
        (Tree.variant? dialect PlacementPolicy.all PlacementPolicy.name) placement }
  | _ => none

def toTree (c : DeviceConfig) : Tree :=
  .table [("num_compute_units", .natural c.computeUnits),
    ("num_stream_cores", .natural c.streamCores), ("wavefront_size", .natural c.wavefrontSize),
    ("max_work_group_size", .natural c.maxGroupSize), ("placement", .text c.placement.name)]

end DeviceConfig

namespace MemoryConfig

def fieldNames : List String := ["l2_hit_latency", "hbm_latency", "l2_lines", "line_size"]

def ofTree? (dialect : Dialect) (t : Tree) : Option MemoryConfig := do
  let default : MemoryConfig := {}
  let word := Tree.natural? wordBound
  match ← t.fields? dialect fieldNames true with
  | [l2HitLatency, hbmLatency, l2Lines, lineSize] =>
    return {
      l2HitLatency := ← fieldOr default.l2HitLatency word l2HitLatency
      hbmLatency := ← fieldOr default.hbmLatency word hbmLatency
      l2Lines := ← fieldOr default.l2Lines word l2Lines
      lineSize := ← fieldOr default.lineSize word lineSize }
  | _ => none

def toTree (c : MemoryConfig) : Tree :=
  .table [("l2_hit_latency", .natural c.l2HitLatency), ("hbm_latency", .natural c.hbmLatency),
    ("l2_lines", .natural c.l2Lines), ("line_size", .natural c.lineSize)]

end MemoryConfig

namespace RunConfig

def fieldNames : List String := ["max_cycles", "metrics_interval"]

def ofTree? (dialect : Dialect) (t : Tree) : Option RunConfig := do
  let default : RunConfig := {}
  let word := Tree.natural? wordBound
  match ← t.fields? dialect fieldNames true with
  | [maxCycles, metricsInterval] =>
    return {
      maxCycles := ← fieldOr default.maxCycles (Tree.optional? word) maxCycles
      metricsInterval := ← fieldOr default.metricsInterval word metricsInterval }
  | _ => none

def toTree (c : RunConfig) : Tree :=
  .table [("max_cycles", .ofOption .natural c.maxCycles),
    ("metrics_interval", .natural c.metricsInterval)]

end RunConfig

namespace KernelConfig

def fieldNames : List String := ["name", "global_size", "local_size", "program"]

def ofTree? (dialect : Dialect) (t : Tree) : Option KernelConfig := do
  let default : KernelConfig := {}
  match ← t.fields? dialect fieldNames true with
  | [name, globalSize, localSize, program] =>
    return {
      name := ← fieldOr default.name Tree.text? name
      globalSize := ← fieldOr default.globalSize (Dim3.ofArray? dialect) globalSize
      localSize := ← fieldOr default.localSize (Dim3.ofArray? dialect) localSize
      program := ← fieldOr default.program
        (Tree.list? (Tree.variant? dialect InstKind.all InstKind.name)) program }
  | _ => none

def toTree (c : KernelConfig) : Tree :=
  .table [("name", .text c.name), ("global_size", c.globalSize.toArray),
    ("local_size", c.localSize.toArray), ("program", .list (c.program.map fun k => .text k.name))]

end KernelConfig

namespace SimConfig

def sectionNames : List String := ["device", "memory", "run", "kernel"]

def ofTree? (dialect : Dialect) (t : Tree) : Option SimConfig := do
  match ← t.fields? dialect sectionNames true with
  | [device, memory, run, kernel] =>
    return {
      device := ← fieldOr {} (DeviceConfig.ofTree? dialect) device
      memory := ← fieldOr {} (MemoryConfig.ofTree? dialect) memory
      run := ← fieldOr {} (RunConfig.ofTree? dialect) run
      kernel := ← fieldOr {} (KernelConfig.ofTree? dialect) kernel }
  | _ => none

def toTree (c : SimConfig) : Tree :=
  .table [("device", c.device.toTree), ("memory", c.memory.toTree), ("run", c.run.toTree),
    ("kernel", c.kernel.toTree)]

end SimConfig

end Accelerator
