import Accelerator.ComputeUnit.Step

/-!
# Slots in a pipeline

Between two cycles a slot is either committed in one of the five latches or in the execute stage.
`ComputeUnit.slots` lists them from the one that was issued last to the one that was issued first.

A unit is *sound* when nothing is staged, its lanes can divide a wavefront, and the slots and the
marks of its wavefronts agree: a wavefront is marked as in flight exactly if one slot of the
pipeline carries its next instruction. Every unit that is only ever given work, stepped and
relieved is sound; this is shown where the cycle is described.
-/

namespace Accelerator

/-- Nothing is staged in any latch. -/
def Latches.Settled {α : Type} (l : Latches α) : Prop := ∀ stage, (l.get stage).next = none

namespace ComputeUnit

/-- The slots in the pipeline, the one issued last first. -/
def slots (u : ComputeUnit) : List Slot :=
  u.latches.schedule.current.toList ++ u.latches.fetch.current.toList ++
    u.latches.decode.current.toList ++ u.latches.read.current.toList ++
    (u.executing.map (·.slot)).toList ++ u.latches.execute.current.toList

/-- A slot carries the next instruction of a wavefront that waits for it. -/
def Carries (u : ComputeUnit) (slot : Slot) : Prop :=
  ∃ r, u.wavefronts[slot.index]? = some r ∧ slot.wavefront = r.wavefront.id ∧ slot.pc = r.pc ∧
    r.inFlight = true ∧ r.retired = false

/-- Slots and wavefronts agree, and a cycle can begin. -/
structure Sound (u : ComputeUnit) : Prop where
  settled : u.latches.Settled
  /-- The number of lanes is a divisor that 32 bits can hold. -/
  width : laneWord (max u.lanes.length 1) ≠ 0
  /-- No two slots belong to one wavefront. -/
  distinct : (u.slots.map (·.index)).Nodup
  carried : ∀ slot ∈ u.slots, u.Carries slot
  flagged : ∀ (index : Nat) (r : Resident), u.wavefronts[index]? = some r → r.inFlight = true →
    ∃ slot ∈ u.slots, slot.index = index
  /-- A unit without a work-group has no wavefronts. -/
  unassigned : u.group = none → u.wavefronts = #[]

variable {u : ComputeUnit}

theorem Carries.lt_size {slot : Slot} (carries : u.Carries slot) :
    slot.index < u.wavefronts.size := by
  obtain ⟨r, found, -⟩ := carries
  exact (Array.getElem?_eq_some_iff.mp found).1

theorem Sound.resident_of_mem {slot : Slot} (sound : u.Sound) (member : slot ∈ u.slots) :
    ∃ r, u.wavefronts[slot.index]? = some r := by
  obtain ⟨r, found, -⟩ := sound.carried slot member
  exact ⟨r, found⟩

/-- A unit without a work-group has an empty pipeline. -/
theorem Sound.slots_eq_nil (sound : u.Sound) (free : u.group = none) : u.slots = [] := by
  rw [List.eq_nil_iff_forall_not_mem]
  intro slot member
  have bound := (sound.carried slot member).lt_size
  rw [sound.unassigned free] at bound
  exact absurd bound (Nat.not_lt_zero _)

/-- A drained unit has an empty pipeline. -/
theorem slots_eq_nil_of_isDrained (drained : u.isDrained = true) : u.slots = [] := by
  simp only [isDrained, Bool.and_eq_true, Option.isNone_iff_eq_none, Latches.isEmpty,
    Stage.handingOn, List.all_cons, Latches.get, Latch.isEmpty] at drained
  simp [slots, drained]

/-- With an empty pipeline and all wavefronts retired, a unit is drained. -/
theorem Sound.isDrained_iff (sound : u.Sound) :
    u.isDrained = true ↔ u.slots = [] ∧ u.wavefronts.all (·.retired) = true := by
  constructor
  · intro drained
    refine ⟨slots_eq_nil_of_isDrained drained, ?_⟩
    simp only [isDrained, Bool.and_eq_true] at drained
    exact drained.2
  · intro both
    rcases both with ⟨empty, retired⟩
    have staged := sound.settled
    simp only [Latches.Settled] at staged
    have schedule := staged .schedule
    have fetch := staged .fetch
    have decode := staged .decode
    have read := staged .read
    have execute := staged .execute
    simp only [Latches.get] at schedule fetch decode read execute
    simp only [slots, List.append_eq_nil_iff, Option.toList_eq_nil_iff,
      Option.map_eq_none_iff] at empty
    simp [isDrained, Latches.isEmpty, Stage.handingOn, Latches.get, Latch.isEmpty, empty, retired,
      schedule, fetch, decode, read, execute]

end ComputeUnit

end Accelerator
