import Accelerator.Memory
import Accelerator.Memory.Cache

/-!
# Two tiers of memory

A cache in front of a memory of high bandwidth and long latency. A request looks up every line that
it touches, and its result is available when that of its slowest line is.
-/

namespace Accelerator

/-- What it takes to describe the two tiers. -/
structure MemoryConfig where
  l2HitLatency : Nat := 20
  hbmLatency : Nat := 200
  l2Lines : Nat := 4096
  lineSize : Nat := 64
deriving DecidableEq, Inhabited

/-- The memory behind the cache. -/
structure Hbm where
  latency : Nat
  accesses : Nat := 0
deriving DecidableEq, Inhabited

structure Hierarchy where
  l2 : Cache
  hbm : Hbm

namespace Hierarchy

def create (config : MemoryConfig) : Hierarchy where
  l2 := .create config.l2Lines config.lineSize config.l2HitLatency
  hbm := { latency := config.hbmLatency }

/-- The lines that hold a byte of the request. A request for no bytes touches the line of its
address. -/
def lines (m : Hierarchy) (request : MemoryRequest) : List Nat :=
  let first := request.addr / m.l2.lineSize
  let last := (request.addr + max request.bytes 1 - 1) / m.l2.lineSize
  List.range' first (last + 1 - first)

/-- The latency of one line. -/
def accessLine (m : Hierarchy) (line now : Nat) : Nat × Hierarchy :=
  match m.l2.lookup line now with
  | (true, l2) => (l2.hitLatency, { m with l2 })
  | (false, l2) =>
    (l2.hitLatency + m.hbm.latency,
      { l2, hbm := { m.hbm with accesses := m.hbm.accesses + 1 } })

/-- Look up one more line, and keep the larger latency. -/
def accessNext (now : Nat) (known : Nat × Hierarchy) (line : Nat) : Nat × Hierarchy :=
  let (latency, m) := known.2.accessLine line now
  (max known.1 latency, m)

/-- The largest latency among the given lines, looked up in order. -/
def accessLines (m : Hierarchy) (now : Nat) (lines : List Nat) : Nat × Hierarchy :=
  lines.foldl (accessNext now) (0, m)

instance : MemoryService Hierarchy where
  access m request now :=
    let (latency, m) := m.accessLines now (m.lines request)
    (now + latency, m)
  -- the end of the request, and the cycle at which its slowest line is there
  holdsAccess m request now :=
    decide (request.addr + max request.bytes 1 < wordBound) &&
      decide (now + (m.accessLines now (m.lines request)).1 < wordBound)

end Hierarchy

end Accelerator
