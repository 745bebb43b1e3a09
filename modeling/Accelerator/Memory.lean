import Accelerator.Instruction

/-!
# Memory timing

A memory service answers one question: a request that reaches it in some cycle, from which cycle on
is its result available? No data is stored. A service may keep a state, and every access answers with
the state that follows.
-/

namespace Accelerator

/-- Timing of memory requests. -/
class MemoryService (μ : Type) where
  /-- The first cycle at which the result of a request made at cycle `now` is available. -/
  access : μ → MemoryRequest → (now : Nat) → Nat × μ
  /-- Whether words hold the sums that `access` takes. -/
  holdsAccess : μ → MemoryRequest → (now : Nat) → Bool := fun _ _ _ => true

/-- Every request takes the same number of cycles. -/
structure FixedLatency where
  latency : Nat
  accesses : Nat := 0
deriving DecidableEq, Inhabited

instance : MemoryService FixedLatency where
  access m _ now := (now + m.latency, { m with accesses := m.accesses + 1 })
  holdsAccess m _ now := decide (now + m.latency < wordBound)

/-- The latencies are given in advance, and start again from the first when they are used up. -/
structure LatencyScript where
  latencies : List Nat
  accesses : Nat := 0
deriving DecidableEq, Inhabited

/-- The latency of the next request. -/
def LatencyScript.next (m : LatencyScript) : Nat :=
  m.latencies.getD (m.accesses % m.latencies.length) 0

instance : MemoryService LatencyScript where
  access m _ now := (now + m.next, { m with accesses := m.accesses + 1 })
  holdsAccess m _ now := decide (now + m.next < wordBound)

end Accelerator
