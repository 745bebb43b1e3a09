import Accelerator.Memory.Hierarchy

/-!
# The memories a device can be given

Every memory service of this library as one type, so that a device can be told at run time which of
them to use.
-/

namespace Accelerator

inductive MemoryModel where
  | fixed (memory : FixedLatency)
  | script (memory : LatencyScript)
  | hierarchy (memory : Hierarchy)

namespace MemoryModel

instance : Inhabited MemoryModel := ⟨.hierarchy (.create {})⟩

instance : MemoryService MemoryModel where
  access
    | .fixed m, request, now => (MemoryService.access m request now).map id .fixed
    | .script m, request, now => (MemoryService.access m request now).map id .script
    | .hierarchy m, request, now => (MemoryService.access m request now).map id .hierarchy
  holdsAccess
    | .fixed m, request, now => MemoryService.holdsAccess m request now
    | .script m, request, now => MemoryService.holdsAccess m request now
    | .hierarchy m, request, now => MemoryService.holdsAccess m request now

/-- Is a line resident? Only a hierarchy has lines. -/
def isResident : MemoryModel → Nat → Bool
  | .hierarchy m, line => m.l2.isResident line
  | _, _ => false

end MemoryModel

end Accelerator
