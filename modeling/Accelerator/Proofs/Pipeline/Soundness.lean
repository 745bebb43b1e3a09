import Accelerator.Proofs.Pipeline.Cycle

/-!
# Units stay sound

The pipeline is a queue: in a cycle at most one slot enters, at most one leaves, and all others
stay in their order (`keys_next`). A slot that enters belongs to a wavefront with nothing in
flight, and a wavefront whose slot leaves has nothing in flight any more. From this it follows
that a cycle leads from a sound unit to a sound one, and so do giving it work and relieving it of
it.
-/

namespace Accelerator

/-- What a slot keeps on its way through the pipeline. -/
def Slot.key (slot : Slot) : Nat × Nat × Nat := (slot.wavefront, slot.index, slot.pc)

namespace ComputeUnit

variable {u : ComputeUnit} {cycle : Nat} {a : Answers}

/-! ## The pipeline as a queue -/

/-- A latch after a cycle holds what was given to it, and what was in it unless that was taken. -/
theorem nextLatch_toList (u : ComputeUnit) (cycle : Nat) (a : Answers) (stage : Stage)
    (filler : stage ≠ .write) :
    (u.nextLatch cycle a stage).current.toList ++ (u.taken stage.reader).toList =
      (u.given cycle a stage).toList ++ (u.latches.get stage).current.toList := by
  have room : (u.given cycle a stage).isSome = true → _ := room_of_given
  have held : ∀ slot, u.taken stage.reader = some slot →
      (u.latches.get stage).current = some slot := by
    intro slot taken
    cases stage <;> simp_all [ComputeUnit.taken, Stage.reader, Latches.get]
  rcases taken : u.taken stage.reader with _ | slot
  · rcases given : u.given cycle a stage with _ | new
    · simp [nextLatch, given, taken]
    · have free : (u.latches.get stage).current = none := by
        simpa [given, taken] using room
      simp [nextLatch, given, taken, free]
  · simp [nextLatch, taken, held slot taken]

/-- The execute stage works on the slot that it takes up, or on the one that it has. -/
theorem atWork_toList (u : ComputeUnit) (cycle : Nat) :
    ((u.atWork cycle).map (·.slot)).toList =
      (u.taken .execute).toList ++ (u.executing.map (·.slot)).toList := by
  unfold atWork
  split
  next slot taken => simp [executing_eq_none_of_taken taken, taken]
  next taken => simp [taken]

/-- The execute stage keeps its slot, or hands it on. -/
theorem executing_toList (u : ComputeUnit) (cycle : Nat) (a : Answers) :
    (((u.next cycle a).executing.map (·.slot)).toList ++
        (u.given cycle a .execute).toList).map Slot.key =
      ((u.taken .execute).toList ++ (u.executing.map (·.slot)).toList).map Slot.key := by
  rw [← u.atWork_toList cycle]
  rcases working : u.atWork cycle with _ | ex
  · simp [next, given, worked, working]
  · cases leaves : (ex.advance a.ready).isOver cycle <;>
      simp [next, given, worked, working, leaves, Option.filter, Slot.key]

/-- The stages of a single cycle hand on what they take. -/
theorem given_map_key {stage : Stage} (single : stage = .fetch ∨ stage = .decode ∨ stage = .read) :
    (u.given cycle a stage).toList.map Slot.key = (u.taken stage).toList.map Slot.key := by
  rcases single with rfl | rfl | rfl
  · rcases taken : u.taken .fetch with _ | slot <;> simp [given, taken, Slot.key]
  · rcases taken : u.taken .decode with _ | slot <;> simp [given, taken, Slot.key]
  · rcases taken : u.taken .read with _ | slot <;> simp [given, taken, Slot.key]

theorem append_shift {α : Type} {before taken given held : List α}
    (moved : before ++ taken = given ++ held) (rest : List α) :
    before ++ (taken ++ rest) = given ++ (held ++ rest) := by
  rw [← List.append_assoc, moved, List.append_assoc]

/-- What leaves the pipeline in a cycle comes after everything else, and what enters it before. -/
theorem keys_next (u : ComputeUnit) (cycle : Nat) (a : Answers) :
    ((u.next cycle a).slots ++ (u.taken .write).toList).map Slot.key =
      ((u.issued cycle).toList ++ u.slots).map Slot.key := by
  have schedule := congrArg (List.map Slot.key)
    (u.nextLatch_toList cycle a .schedule (by decide))
  have fetch := congrArg (List.map Slot.key)
    (u.nextLatch_toList cycle a .fetch (by decide))
  have decode := congrArg (List.map Slot.key)
    (u.nextLatch_toList cycle a .decode (by decide))
  have read := congrArg (List.map Slot.key)
    (u.nextLatch_toList cycle a .read (by decide))
  have execute := congrArg (List.map Slot.key)
    (u.nextLatch_toList cycle a .execute (by decide))
  have executing := u.executing_toList cycle a
  simp only [List.map_append, Stage.reader, Latches.get, given_map_key (.inl rfl),
    given_map_key (.inr (.inl rfl)), given_map_key (.inr (.inr rfl))]
    at schedule fetch decode read execute executing
  have latches : (u.next cycle a).latches = {
      schedule := u.nextLatch cycle a .schedule
      fetch := u.nextLatch cycle a .fetch
      decode := u.nextLatch cycle a .decode
      read := u.nextLatch cycle a .read
      execute := u.nextLatch cycle a .execute } := rfl
  simp only [slots, latches, List.map_append, List.append_assoc]
  -- From the last latch to the first, what was taken moves to the place where it was found.
  rw [execute, append_shift executing, append_shift read, append_shift decode, append_shift fetch,
    append_shift schedule]
  rfl

/-- A slot of the next cycle is a new one, or carries on with one that is not written back. -/
theorem key_mem_of_next {slot : Slot} (member : slot ∈ (u.next cycle a).slots) :
    (∃ new, u.issued cycle = some new ∧ slot.key = new.key) ∨
      ∃ old ∈ u.slots, slot.key = old.key := by
  have key : slot.key ∈ ((u.next cycle a).slots ++ (u.taken .write).toList).map Slot.key :=
    List.mem_map_of_mem (List.mem_append_left _ member)
  rw [keys_next, List.mem_map] at key
  obtain ⟨old, source, same⟩ := key
  rcases List.mem_append.mp source with issued | old'
  · exact Or.inl ⟨old, Option.mem_toList.mp issued, same.symm⟩
  · exact Or.inr ⟨old, old', same.symm⟩

/-- A slot that is not written back carries on. -/
theorem key_mem_next {old : Slot} (source : u.issued cycle = some old ∨ old ∈ u.slots)
    (stays : ∀ slot, u.taken .write = some slot → slot.index ≠ old.index) :
    ∃ slot ∈ (u.next cycle a).slots, slot.key = old.key := by
  have key : old.key ∈ ((u.issued cycle).toList ++ u.slots).map Slot.key := by
    refine List.mem_map_of_mem (List.mem_append.mpr ?_)
    exact source.imp Option.mem_toList.mpr fun here => here
  rw [← keys_next (a := a), List.mem_map] at key
  obtain ⟨slot, found, same⟩ := key
  rcases List.mem_append.mp found with here | gone
  · exact ⟨slot, here, same⟩
  · exact absurd (congrArg (·.2.1) same) (stays slot (Option.mem_toList.mp gone))

/-! ## Wavefronts -/

theorem getElem?_next (u : ComputeUnit) (cycle : Nat) (a : Answers) (index : Nat) :
    (u.next cycle a).wavefronts[index]? =
      u.wavefronts[index]?.map (u.nextResident cycle a index) := by
  simp [next]

theorem nextResident_of_issued {slot : Slot} (issued : u.issued cycle = some slot) (r : Resident) :
    u.nextResident cycle a slot.index r = { r with inFlight := true } := by
  simp [nextResident, issued]

theorem nextResident_of_taken {slot : Slot} (taken : u.taken .write = some slot)
    (other : ∀ new, u.issued cycle = some new → new.index ≠ slot.index) (r : Resident) :
    u.nextResident cycle a slot.index r =
      { r with inFlight := false, pc := slot.pc + 1, retired := r.retired || a.retired } := by
  rcases issued : u.issued cycle with _ | new
  · simp [nextResident, issued, taken, Option.filter]
  · simp [nextResident, issued, taken, Option.filter, other new issued]

theorem nextResident_of_ne {index : Nat}
    (unissued : ∀ slot, u.issued cycle = some slot → slot.index ≠ index)
    (untaken : ∀ slot, u.taken .write = some slot → slot.index ≠ index) (r : Resident) :
    u.nextResident cycle a index r = r := by
  rcases issued : u.issued cycle with _ | new <;>
    rcases taken : u.taken .write with _ | slot
  · simp [nextResident, issued, taken]
  · simp [nextResident, issued, taken, Option.filter, untaken slot taken]
  · simp [nextResident, issued, taken, unissued new issued]
  · simp [nextResident, issued, taken, Option.filter, unissued new issued, untaken slot taken]

/-- Nothing but writing back an instruction of a wavefront moves its program counter. -/
theorem nextResident_pc_of_unwritten {index : Nat}
    (untaken : ∀ slot, u.taken .write = some slot → slot.index ≠ index) (r : Resident) :
    (u.nextResident cycle a index r).pc = r.pc := by
  by_cases isNew : ∃ new, u.issued cycle = some new ∧ new.index = index
  · obtain ⟨new, issued, rfl⟩ := isNew
    rw [nextResident_of_issued issued]
  · rw [nextResident_of_ne (fun new issued same => isNew ⟨new, issued, same⟩) untaken]

/-- A cycle leaves no two slots to one wavefront, not even counting the one that is written back. -/
theorem Sound.nodup_next (sound : u.Sound) (cycle : Nat) (a : Answers) :
    (((u.next cycle a).slots ++ (u.taken .write).toList).map (·.index)).Nodup := by
  have indices : ∀ l : List Slot, l.map (·.index) = (l.map Slot.key).map (·.2.1) := by
    intro l
    rw [List.map_map]
    rfl
  rw [indices, keys_next, ← indices, List.map_append]
  rcases issued : u.issued cycle with _ | new
  · exact sound.distinct
  · refine List.nodup_cons.mpr ⟨fun member => ?_, sound.distinct⟩
    obtain ⟨slot, here, same⟩ := List.mem_map.mp member
    exact sound.issued_ne issued here same.symm

/-- What is written back is not in the pipeline any more. -/
theorem Sound.taken_ne_next (sound : u.Sound) {gone slot : Slot}
    (taken : u.taken .write = some gone) (member : slot ∈ (u.next cycle a).slots) :
    gone.index ≠ slot.index := by
  have distinct := sound.nodup_next cycle a
  rw [List.map_append, List.nodup_append] at distinct
  refine fun same => distinct.2.2 slot.index (List.mem_map_of_mem member) gone.index ?_ same.symm
  rw [taken]
  exact List.mem_singleton.mpr rfl

theorem Sound.carries_next (sound : u.Sound) {slot : Slot}
    (member : slot ∈ (u.next cycle a).slots) : (u.next cycle a).Carries slot := by
  unfold Carries
  rw [getElem?_next]
  have untaken : ∀ gone, u.taken .write = some gone → gone.index ≠ slot.index :=
    fun gone taken => sound.taken_ne_next taken member
  rcases key_mem_of_next member with ⟨new, issued, same⟩ | ⟨old, source, same⟩
  · simp only [Slot.key, Prod.mk.injEq] at same
    obtain ⟨index, r, issue, found, rfl⟩ := issued_eq_some_iff.mp issued
    obtain ⟨r', found', -, active⟩ := issuable_of_issue issue
    cases found.symm.trans found'
    simp only at same
    rw [same.2.1, found, Option.map_some, nextResident_of_issued issued]
    exact ⟨_, rfl, same.1, same.2.2, rfl, active⟩
  · simp only [Slot.key, Prod.mk.injEq] at same
    obtain ⟨r, found, wavefront, pc, inFlight, active⟩ := sound.carried old source
    have unissued : ∀ new, u.issued cycle = some new → new.index ≠ slot.index := by
      intro new issued
      rw [same.2.1]
      exact sound.issued_ne issued source
    rw [same.2.1, found, Option.map_some, ← same.2.1, nextResident_of_ne unissued untaken]
    exact ⟨r, rfl, same.1.trans wavefront, same.2.2.trans pc, inFlight, active⟩

theorem Sound.flagged_next (sound : u.Sound) {index : Nat} {r : Resident}
    (found : (u.next cycle a).wavefronts[index]? = some r) (inFlight : r.inFlight = true) :
    ∃ slot ∈ (u.next cycle a).slots, slot.index = index := by
  rw [getElem?_next, Option.map_eq_some_iff] at found
  obtain ⟨before, found, rfl⟩ := found
  -- The slot of a wavefront that is in flight afterwards is new, or was there and stays.
  by_cases isNew : ∃ new, u.issued cycle = some new ∧ new.index = index
  · obtain ⟨new, issued, rfl⟩ := isNew
    obtain ⟨slot, member, same⟩ := key_mem_next (a := a) (.inl issued) fun gone taken =>
      (sound.issued_ne issued (mem_slots_of_taken taken)).symm
    exact ⟨slot, member, congrArg (·.2.1) same⟩
  · have unissued : ∀ new, u.issued cycle = some new → new.index ≠ index :=
      fun new issued same => isNew ⟨new, issued, same⟩
    by_cases isWritten : ∃ gone, u.taken .write = some gone ∧ gone.index = index
    · obtain ⟨gone, taken, rfl⟩ := isWritten
      rw [nextResident_of_taken taken unissued] at inFlight
      cases inFlight
    · have untaken : ∀ gone, u.taken .write = some gone → gone.index ≠ index :=
        fun gone taken same => isWritten ⟨gone, taken, same⟩
      rw [nextResident_of_ne unissued untaken] at inFlight
      obtain ⟨old, source, rfl⟩ := sound.flagged index before found inFlight
      obtain ⟨slot, member, same⟩ := key_mem_next (a := a) (.inr source) untaken
      exact ⟨slot, member, congrArg (·.2.1) same⟩

/-! ## Soundness is kept -/

@[simp] theorem nextLanes_length (u : ComputeUnit) (cycle : Nat) :
    (u.nextLanes cycle).length = u.lanes.length := by
  unfold nextLanes
  split
  · simp
  · split
    · simp
    · split <;> simp [Lane.issueAll]

/-- A cycle leads from a sound unit to a sound one. -/
theorem Sound.next (sound : u.Sound) (cycle : Nat) (a : Answers) : (u.next cycle a).Sound where
  settled stage := by cases stage <;> rfl
  width := by
    have lanes : (u.next cycle a).lanes.length = u.lanes.length := u.nextLanes_length cycle
    rw [lanes]
    exact sound.width
  distinct := by
    have distinct := sound.nodup_next cycle a
    rw [List.map_append] at distinct
    exact (List.nodup_append.mp distinct).1
  carried _ member := sound.carries_next member
  flagged _ _ found inFlight := sound.flagged_next found inFlight
  unassigned free := by
    have none : u.wavefronts = #[] := sound.unassigned free
    simp [ComputeUnit.next, none]

/-- A unit that has never worked is sound. -/
theorem Sound.create {id deviceId laneCount : Nat} (width : laneWord (max laneCount 1) ≠ 0) :
    (ComputeUnit.create id deviceId laneCount).Sound where
  settled stage := by cases stage <;> rfl
  width := by simpa [ComputeUnit.create] using width
  distinct := List.nodup_nil
  carried _ member := by cases member
  flagged _ _ found := by cases found
  unassigned _ := rfl

/-- The order of evaluation has nothing to do with soundness. -/
theorem Sound.withOrder (sound : u.Sound) (order : StageOrder) :
    ({ u with order } : ComputeUnit).Sound :=
  ⟨sound.settled, sound.width, sound.distinct, sound.carried, sound.flagged, sound.unassigned⟩

/-- A unit that is given work is sound: its pipeline is empty, and nothing is marked. -/
theorem Sound.assign (sound : u.Sound) {group : Nat} {wavefronts : List Wavefront}
    {assigned : ComputeUnit} (given : u.assign group wavefronts = .ok assigned) :
    assigned.Sound := by
  unfold ComputeUnit.assign at given
  split at given
  next => cases given
  next free =>
      cases given
      have empty := sound.slots_eq_nil free
      refine ⟨sound.settled, sound.width, sound.distinct, ?_, ?_, fun held => by cases held⟩
      · intro slot member
        exact absurd (empty ▸ member : slot ∈ []) List.not_mem_nil
      · intro index r found inFlight
        simp only [List.getElem?_toArray, List.getElem?_map, Option.map_eq_some_iff] at found
        obtain ⟨w, -, rfl⟩ := found
        cases inFlight

/-- A unit that is relieved of its work is sound. -/
theorem Sound.release (sound : u.Sound) : u.release.2.Sound := by
  unfold ComputeUnit.release
  split
  next group held =>
      split
      next drained =>
          have empty : u.slots = [] := slots_eq_nil_of_isDrained drained
          refine ⟨sound.settled, ?_, sound.distinct, ?_, fun _ _ found => by simp at found,
            fun _ => rfl⟩
          · simpa [idleLanes] using sound.width
          · intro slot member
            exact absurd (empty ▸ member : slot ∈ []) List.not_mem_nil
      next => exact sound
  next => exact sound

end ComputeUnit

end Accelerator
