import Accelerator.Sums

/-!
# Wavefronts

A wavefront is a run of consecutive work-items of one work-group that execute in lockstep. A compute
unit has fewer lanes than a wavefront has items, so it executes an instruction of a wavefront in
several turns, one *sub-wavefront* after the other.

The number of sub-wavefronts and their bounds are computed by different roundings: the number rounds
a quotient up, and the bounds are cut off at the end of the wavefront.

The bounds are sums, and so are the global numbers of the items. `Wavefront.subwavefront` says what the
bounds are, and `Wavefront.subwavefront?` takes the sums that a device takes for them.
-/

namespace Accelerator

/-- A half-open run of consecutive indices: `start` is in it and `stop` is not. -/
structure Span where
  start : Nat
  stop : Nat
deriving DecidableEq, Inhabited

namespace Span

/-- How many indices the run holds. -/
def length (s : Span) : Nat := s.stop - s.start

/-- A run whose end does not lie after its start holds nothing. -/
def isEmpty (s : Span) : Bool := decide (s.stop ≤ s.start)

/-- The indices of the run, in ascending order. -/
def toList (s : Span) : List Nat := List.range' s.start s.length

end Span

/-- Work-items per wavefront where nothing else is asked for. -/
def defaultWavefrontSize : Nat := 64

/-- A lane count as the 32-bit word in which sub-wavefronts are computed. A count that fits is kept
as it is; of a larger one only the low bits count. -/
def laneWord (lanes : Nat) : Nat := lanes % countBound

/-- Which work-items of which work-group run in lockstep. -/
structure Wavefront where
  /-- Position in the launch's table of wavefronts. -/
  id : Nat
  /-- The work-group the items belong to. -/
  group : Nat := 0
  /-- The items, numbered within their work-group. -/
  items : Span
  /-- Global number of item 0 of the work-group. -/
  base : Nat := 0
deriving DecidableEq, Inhabited

namespace Wavefront

/-- The global number of an item of the work-group. -/
def globalId (w : Wavefront) (item : Nat) : Nat := w.base + item

/-- How many turns the lanes need to cover every item: at least one, even for a wavefront without
items. No lanes count as one lane; a lane count whose low 32 bits are zero leaves nothing to divide
by, and the number is undefined. -/
def subwavefrontCount? (w : Wavefront) (lanes : Nat) : Option Nat :=
  let width := laneWord (max lanes 1)
  if width = 0 then none else some (max (ceilDiv w.items.length width) 1)

/-- The items of turn `turn`: as many as there are lanes, cut off at the end of the wavefront. -/
def subwavefront (w : Wavefront) (turn lanes : Nat) : Span :=
  let width := laneWord lanes
  let start := min (w.items.start + turn * width) w.items.stop
  ⟨start, min (start + width) w.items.stop⟩

/-- The items of turn `turn`, as sums of item counts: those passed over, where the turn begins, and where
it ends. Only the last two are cut off, each when it is known. -/
def subwavefront? [Sums] (w : Wavefront) (turn lanes : Nat) : Option Span := do
  let width := laneWord lanes
  let passed ← Sums.hold? countBound (turn * width)
  let start := min (← Sums.hold? countBound (w.items.start + passed)) w.items.stop
  let stop := min (← Sums.hold? countBound (start + width)) w.items.stop
  return ⟨start, stop⟩

/-- Where they have values the sums are right. -/
theorem subwavefront?_of_lt [Sums] {w : Wavefront} {turn lanes : Nat}
    (begins : w.items.start + turn * laneWord lanes < countBound)
    (ends : (w.subwavefront turn lanes).start + laneWord lanes < countBound) :
    w.subwavefront? turn lanes = some (w.subwavefront turn lanes) := by
  have passed : turn * laneWord lanes < countBound :=
    Nat.lt_of_le_of_lt (Nat.le_add_left ..) begins
  simp only [subwavefront] at ends
  simp only [subwavefront?, Sums.hold?_of_lt passed, Sums.hold?_of_lt begins, Sums.hold?_of_lt ends,
    Option.bind_eq_bind, Option.bind_some]
  rfl

/-- Words hold all the sums if they hold the largest two. -/
theorem subwavefront?_words (w : Wavefront) (turn lanes : Nat) :
    @subwavefront? .words w turn lanes =
      if w.items.start + turn * laneWord lanes < countBound ∧
          (w.subwavefront turn lanes).start + laneWord lanes < countBound then
        some (w.subwavefront turn lanes)
      else none := by
  split
  next fits => exact @subwavefront?_of_lt .words _ _ _ fits.1 fits.2
  next overflows =>
    simp only [subwavefront] at overflows
    simp only [subwavefront?, Sums.hold?_words, Option.bind_eq_bind]
    -- the items passed over are the least of the sums, so that it may as well fit
    by_cases passed : turn * laneWord lanes < countBound
    · by_cases begins : w.items.start + turn * laneWord lanes < countBound
      · simp [passed, begins, not_and.mp overflows begins]
      · simp [passed, begins]
    · simp [passed]

@[simp] theorem subwavefront?_unbounded (w : Wavefront) (turn lanes : Nat) :
    @subwavefront? .unbounded w turn lanes = some (w.subwavefront turn lanes) := rfl

/-- Item counts hold the global numbers of the given items, of which the last one has the largest. -/
def holdsIds (w : Wavefront) (items : Span) : Bool :=
  items.isEmpty || decide (w.globalId (items.stop - 1) < countBound)

/-- The items of every turn, in order. -/
def subwavefronts? (w : Wavefront) (lanes : Nat) : Option (List Span) :=
  (w.subwavefrontCount? lanes).map fun count =>
    (List.range count).map fun turn => w.subwavefront turn lanes

end Wavefront

/-- A wavefront on the compute unit that runs its work-group. -/
structure Resident where
  wavefront : Wavefront
  /-- Program counter of the next instruction to issue. -/
  pc : Nat := 0
  /-- One of its instructions is somewhere in the pipeline. -/
  inFlight : Bool := false
  /-- It has executed its last instruction. -/
  retired : Bool := false
deriving DecidableEq, Inhabited

/-- A wavefront can issue when nothing of it is under way and there is something left to run. -/
def Resident.isIssuable (r : Resident) : Bool := !r.inFlight && !r.retired

end Accelerator
