import Accelerator.UnitSet

/-!
# Placement

Work-groups are dispatched first come, first served; a placement only says *where*. It is asked for a
member of the set of idle compute units, and may keep a state from one pick to the next.

* `FirstIdle` picks the unit that has been idle longest;
* `RoundRobin` counts cyclically through the units and picks the first idle one;
* `Scripted` picks what it was told in advance, whether or not that unit is idle.
-/

namespace Accelerator

/-- Where work-groups go. -/
class Placement (π : Type) where
  name : π → String
  pick : π → (idle : UnitSet) → Option Nat × π

/-- The unit that has been idle longest. -/
structure FirstIdle where
deriving DecidableEq, Inhabited

instance : Placement FirstIdle where
  name _ := "first-idle"
  pick p idle := (idle.front, p)

/-- The idle unit with the smallest number from the cursor on, or else with the smallest number at
all. The cursor then moves past it. -/
structure RoundRobin where
  cursor : Nat := 0
deriving DecidableEq, Inhabited

instance : Placement RoundRobin where
  name _ := "round-robin"
  pick p idle :=
    let units := idle.toList
    match (units.filter (p.cursor ≤ ·)).min?.or units.min? with
    | some unit => (some unit, { cursor := unit + 1 })
    | none => (none, p)

/-- The picks are given in advance, and start again from the first when they are used up. -/
structure Scripted where
  picks : List (Option Nat)
  made : Nat := 0
deriving DecidableEq, Inhabited

instance : Placement Scripted where
  name _ := "scripted"
  pick p _ := (p.picks.getD (p.made % p.picks.length) none, { p with made := p.made + 1 })

/-- The placements a configuration can name. -/
inductive PlacementPolicy where
  | firstIdle
  | roundRobin
deriving DecidableEq

instance : Inhabited PlacementPolicy := ⟨.firstIdle⟩

namespace PlacementPolicy

def all : List PlacementPolicy := [firstIdle, roundRobin]

def name : PlacementPolicy → String
  | firstIdle => "first-idle"
  | roundRobin => "round-robin"

end PlacementPolicy

/-- The placements a device can be given. -/
inductive Placer where
  | firstIdle (placement : FirstIdle)
  | roundRobin (placement : RoundRobin)
  | scripted (placement : Scripted)
deriving Inhabited

instance : Placement Placer where
  name
    | .firstIdle p => Placement.name p
    | .roundRobin p => Placement.name p
    | .scripted p => Placement.name p
  pick
    | .firstIdle p, idle => (Placement.pick p idle).map id .firstIdle
    | .roundRobin p, idle => (Placement.pick p idle).map id .roundRobin
    | .scripted p, idle => (Placement.pick p idle).map id .scripted

/-- A placement at the start of its life. -/
def PlacementPolicy.build : PlacementPolicy → Placer
  | firstIdle => .firstIdle {}
  | roundRobin => .roundRobin {}

end Accelerator
