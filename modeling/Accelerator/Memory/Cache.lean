import Accelerator.Queue
import Std.Data.TreeSet

/-!
# A first-in first-out cache with deferred fills

A cache of whole lines. A look-up that misses asks for its line to be filled, and the line becomes
resident when the next cycle begins: all look-ups of one cycle see the same contents, whatever their
order. Lines that missed in one cycle are filled in ascending order, and a full cache makes room by
evicting the line that has been resident longest.

The lines are kept twice: in the order in which they became resident, for eviction, and as a set, for
look-up.
-/

namespace Accelerator

structure Cache where
  /-- How many lines may be resident. It can be changed at any time, and takes effect when the next
  line is filled. -/
  capacity : Nat
  lineSize : Nat
  hitLatency : Nat
  resident : Std.TreeSet Nat := ∅
  /-- The resident lines, longest resident first. -/
  order : Queue Nat := {}
  /-- The lines that missed in `fillCycle`, descending. -/
  filling : List Nat := []
  /-- The cycle of the latest look-up. -/
  fillCycle : Nat := 0
  hits : Nat := 0
  misses : Nat := 0

/-- Put a line into a descending list, unless it is there. The lines of one request come in ascending
order, so that each of them has its place at the very beginning. -/
def insertDescending (line : Nat) : List Nat → List Nat
  | [] => [line]
  | first :: rest =>
    if first < line then line :: first :: rest
    else if line = first then first :: rest
    else first :: insertDescending line rest

namespace Cache

/-- An empty cache. Lines have at least one byte. -/
def create (capacity lineSize hitLatency : Nat) : Cache :=
  { capacity, lineSize := max lineSize 1, hitLatency }

def isResident (c : Cache) (line : Nat) : Bool := c.resident.contains line

/-- Evict the line that has been resident longest. -/
def evict (c : Cache) : Cache :=
  match c.order.pop? with
  | none => c
  | some (victim, order) => { c with resident := c.resident.erase victim, order }

/-- Make a line resident, and evict another one first if the cache is full. -/
def fill (c : Cache) (line : Nat) : Cache :=
  if c.isResident line then c
  else
    let c := if c.capacity ≤ c.resident.size then c.evict else c
    { c with resident := c.resident.insert line, order := c.order.push line }

/-- At the first look-up of a new cycle the lines that missed in the old one are filled. -/
def settle (c : Cache) (now : Nat) : Cache :=
  if now = c.fillCycle then c
  else { c.filling.reverse.foldl fill { c with filling := [] } with fillCycle := now }

/-- Look one line up at cycle `now`: is it resident? A line that is not will be filled, unless there
is no room for any. -/
def lookup (c : Cache) (line now : Nat) : Bool × Cache :=
  let c := c.settle now
  if c.isResident line then
    (true, { c with hits := c.hits + 1 })
  else
    (false, { c with
      misses := c.misses + 1
      filling := if c.capacity = 0 then c.filling else insertDescending line c.filling })

end Cache

end Accelerator
