import Accelerator.Proofs.Pipeline.Slots

/-!
# What moves in a cycle

`ComputeUnit.taken` is the slot that a stage takes out of the latch before it in the coming cycle,
and `ComputeUnit.given` the slot that it leaves in the latch behind it. Both depend on the
committed state alone, and on what the instruction model and the memory answer. `ComputeUnit.next`
is the unit after the cycle, in closed form, and `ComputeUnit.stageEvents` are the events that a
stage reports.

The plan is what makes this work: a stage that leaves a slot behind finds its latch empty, or
finds that the next stage empties it in the same cycle (`room_of_given`).
-/

namespace Accelerator

/-- What the instruction model and the memory answer in one cycle of a unit. -/
structure Answers where
  fetched : Instruction
  decoded : Instruction
  /-- From when on the result of the memory request is available, if one was made. -/
  ready : Option Nat
  retired : Bool

/-- The stage that takes what a stage has left behind. -/
def Stage.reader : Stage → Stage
  | schedule => fetch
  | fetch => decode
  | decode => read
  | read => execute
  | execute | write => write

namespace Execution

/-- Some sub-wavefront has not had its turn. -/
def hasTurn (ex : Execution) : Bool := decide (ex.turn < ex.turns)

/-- The execution after a cycle: one more turn is over, if there was one to take. -/
def advance (ex : Execution) (ready : Option Nat) : Execution :=
  if ex.hasTurn then { ex with turn := ex.turn + 1, readyAt := max ex.readyAt (ready.getD 0) }
  else ex

/-- All turns are over and every result is there. -/
def isOver (ex : Execution) (cycle : Nat) : Bool := !ex.hasTurn && decide (ex.readyAt ≤ cycle)

@[simp] theorem advance_slot (ex : Execution) (ready : Option Nat) :
    (ex.advance ready).slot = ex.slot := by
  unfold advance
  split <;> rfl

@[simp] theorem advance_turns (ex : Execution) (ready : Option Nat) :
    (ex.advance ready).turns = ex.turns := by
  unfold advance
  split <;> rfl

end Execution

namespace ComputeUnit

/-! ## Slots on the move -/

/-- The slot that a stage takes out of the latch before it. -/
def taken (u : ComputeUnit) : Stage → Option Slot
  | .schedule => none
  | .fetch => if u.plan.fetch then u.latches.schedule.current else none
  | .decode => if u.plan.decode then u.latches.fetch.current else none
  | .read => if u.plan.read then u.latches.decode.current else none
  | .execute => if u.plan.execute then u.latches.read.current else none
  | .write => if u.plan.write then u.latches.execute.current else none

/-- The wavefront of a slot. -/
def wavefront? (u : ComputeUnit) (slot : Slot) : Option Wavefront :=
  u.wavefronts[slot.index]?.map (·.wavefront)

/-- The slot at work in the execute stage, before its turn of this cycle. -/
def atWork (u : ComputeUnit) (cycle : Nat) : Option Execution :=
  match u.taken .execute with
  | some slot => some {
      slot
      turns := ((u.wavefront? slot).bind fun w => w.subwavefrontCount? u.lanes.length).getD 0
      readyAt := cycle }
  | none => u.executing

/-- The slot at work after its turn of this cycle. -/
def worked (u : ComputeUnit) (cycle : Nat) (a : Answers) : Option Execution :=
  (u.atWork cycle).map (·.advance a.ready)

/-- The slot that the schedule stage issues. -/
def issued (u : ComputeUnit) (cycle : Nat) : Option Slot :=
  u.plan.issue.bind fun index =>
    u.wavefronts[index]?.map fun r =>
      { wavefront := r.wavefront.id, index, pc := r.pc, producedAt := cycle }

/-- The slot that a stage leaves in the latch behind it. -/
def given (u : ComputeUnit) (cycle : Nat) (a : Answers) : Stage → Option Slot
  | .schedule => u.issued cycle
  | .fetch => (u.taken .fetch).map fun slot =>
      { slot with instruction := some a.fetched, producedAt := cycle }
  | .decode => (u.taken .decode).map fun slot =>
      { slot with instruction := slot.instruction.map fun _ => a.decoded, producedAt := cycle }
  | .read => (u.taken .read).map fun slot => { slot with producedAt := cycle }
  | .execute => ((u.worked cycle a).filter (·.isOver cycle)).map fun ex =>
      { ex.slot with producedAt := cycle }
  | .write => none

/-! ## The unit after a cycle -/

/-- A latch after a cycle: what was given to it, or else what was left in it. -/
def nextLatch (u : ComputeUnit) (cycle : Nat) (a : Answers) (stage : Stage) : Latch Slot where
  current := (u.given cycle a stage).or
    (if (u.taken stage.reader).isSome then none else (u.latches.get stage).current)

/-- Where the search for the next wavefront will start. -/
def nextCursor (u : ComputeUnit) : Nat :=
  match u.plan.issue with
  | some index => (index + 1) % u.wavefronts.size
  | none => u.cursor

/-- What the lanes show after a cycle. -/
def nextLanes (u : ComputeUnit) (cycle : Nat) : List Lane :=
  match u.atWork cycle with
  | none => u.lanes.map Lane.idle
  | some ex =>
    match u.wavefront? ex.slot with
    | none => u.lanes.map Lane.idle
    | some w =>
      if ex.hasTurn then
        Lane.issueAll u.lanes (w.subwavefront ex.turn u.lanes.length) fun item =>
          { wavefront := w.id, item := w.globalId item
            kind := (ex.slot.instruction.map (·.kind)).getD .alu, cycle }
      else u.lanes.map Lane.idle

/-- A wavefront after a cycle. -/
def nextResident (u : ComputeUnit) (cycle : Nat) (a : Answers) (index : Nat) (r : Resident) :
    Resident :=
  if (u.issued cycle).any (·.index == index) then { r with inFlight := true }
  else
    match (u.taken .write).filter (·.index == index) with
    | some slot => { r with inFlight := false, pc := slot.pc + 1, retired := r.retired || a.retired }
    | none => r

/-- The unit after a cycle. -/
def next (u : ComputeUnit) (cycle : Nat) (a : Answers) : ComputeUnit :=
  { u with
    latches := {
      schedule := u.nextLatch cycle a .schedule
      fetch := u.nextLatch cycle a .fetch
      decode := u.nextLatch cycle a .decode
      read := u.nextLatch cycle a .read
      execute := u.nextLatch cycle a .execute }
    wavefronts := u.wavefronts.mapIdx (u.nextResident cycle a)
    cursor := u.nextCursor
    executing := (u.worked cycle a).filter (!·.isOver cycle)
    lanes := u.nextLanes cycle
    stats := { u.stats with
      busyCycles := u.stats.busyCycles + 1
      instructions := u.stats.instructions + if (u.taken .write).isSome then 1 else 0
      requests := u.stats.requests + if a.ready.isSome then 1 else 0 } }

/-! ## What a cycle reports -/

/-- An event of the unit about a slot at a stage. -/
def stageEvent (u : ComputeUnit) (cycle group : Nat) (stage : Stage) (action : Action)
    (slot : Slot) : TraceEvent where
  cycle
  unit := u.id
  group
  wavefront := some slot.wavefront
  stage := some stage
  action

/-- The events of one stage in a cycle, in their order. -/
def stageEvents (u : ComputeUnit) (cycle group : Nat) (a : Answers) (stage : Stage) :
    List TraceEvent :=
  ((u.taken stage).toList.map fun slot =>
    (u.stageEvent cycle group stage .consume slot).withProducedAt slot.producedAt) ++
  (if stage = .execute ∧ a.ready.isSome then
    (u.atWork cycle).toList.map fun ex => u.stageEvent cycle group stage .memoryIssue ex.slot
  else []) ++
  ((u.given cycle a stage).toList.map fun slot =>
    u.stageEvent cycle group stage .produce slot) ++
  (if stage = .write ∧ a.retired then
    (u.taken stage).toList.map fun slot => u.stageEvent cycle group stage .retire slot
  else [])

/-- What one stage notes about wavefronts in a cycle. -/
def stageUpdates (u : ComputeUnit) (cycle : Nat) (a : Answers) : Stage → List WavefrontUpdate
  | .schedule => (u.issued cycle).toList.map fun slot => .issued slot.index
  | .write => (u.taken .write).toList.map fun slot => .written slot.index (slot.pc + 1) a.retired
  | _ => []

/-! ## Where slots come from -/

section

variable {u : ComputeUnit} {cycle : Nat} {a : Answers}

theorem mem_slots_of_taken {stage : Stage} {slot : Slot} (taken : u.taken stage = some slot) :
    slot ∈ u.slots := by
  cases stage <;> simp [ComputeUnit.taken] at taken <;> simp [slots, taken]

theorem mem_slots_of_atWork {ex : Execution} (working : u.atWork cycle = some ex) :
    ex.slot ∈ u.slots := by
  unfold atWork at working
  split at working
  next slot taken =>
    cases working
    exact mem_slots_of_taken taken
  next => simp [slots, working]

/-- The search for a wavefront finds one that can issue. -/
theorem isIssuableAt_of_issuableFrom {n start index : Nat}
    (found : u.issuableFrom n start = some index) : u.isIssuableAt index = true := by
  induction n generalizing start with
  | zero => cases found
  | succ n ih =>
      rw [issuableFrom] at found
      split at found
      next issuable => exact Option.some.inj found ▸ issuable
      next => exact ih found

/-- What the plan issues is a wavefront with nothing in flight and something left to run. -/
theorem issuable_of_issue {index : Nat} (issue : u.plan.issue = some index) :
    ∃ r, u.wavefronts[index]? = some r ∧ r.inFlight = false ∧ r.retired = false := by
  have found : u.nextIssuable = some index := by
    simp only [plan] at issue
    split at issue
    · exact issue
    · cases issue
  have issuable := isIssuableAt_of_issuableFrom found
  simp only [isIssuableAt, Option.any_eq_true, Resident.isIssuable, Bool.and_eq_true,
    Bool.not_eq_true'] at issuable
  obtain ⟨r, found, inFlight, retired⟩ := issuable
  exact ⟨r, found, inFlight, retired⟩

theorem issued_eq_some_iff {slot : Slot} :
    u.issued cycle = some slot ↔ ∃ index r, u.plan.issue = some index ∧
      u.wavefronts[index]? = some r ∧
      slot = { wavefront := r.wavefront.id, index, pc := r.pc, producedAt := cycle } := by
  simp only [issued, Option.bind_eq_some_iff, Option.map_eq_some_iff]
  constructor
  · intro given
    rcases given with ⟨index, issue, r, found, rfl⟩
    exact ⟨index, r, issue, found, rfl⟩
  · intro given
    rcases given with ⟨index, r, issue, found, rfl⟩
    exact ⟨index, issue, r, found, rfl⟩

/-- A wavefront that issues has no slot in the pipeline. -/
theorem Sound.issued_ne (sound : u.Sound) {new slot : Slot} (issued : u.issued cycle = some new)
    (member : slot ∈ u.slots) : new.index ≠ slot.index := by
  intro same
  obtain ⟨index, r, issue, found, rfl⟩ := issued_eq_some_iff.mp issued
  obtain ⟨r', found', ready, -⟩ := issuable_of_issue issue
  obtain ⟨r'', found'', -, -, inFlight, -⟩ := sound.carried slot member
  simp only at same
  rw [same] at found'
  rw [found'] at found''
  cases found''
  rw [ready] at inFlight
  cases inFlight

/-! ## The plan, stage by stage -/

theorem plan_issue (u : ComputeUnit) :
    u.plan.issue =
      if !u.latches.isOccupied .schedule || u.plan.fetch then u.nextIssuable else none := rfl

theorem plan_fetch (u : ComputeUnit) :
    u.plan.fetch =
      (u.latches.isOccupied .schedule && (!u.latches.isOccupied .fetch || u.plan.decode)) := rfl

theorem plan_decode (u : ComputeUnit) :
    u.plan.decode =
      (u.latches.isOccupied .fetch && (!u.latches.isOccupied .decode || u.plan.read)) := rfl

theorem plan_read (u : ComputeUnit) :
    u.plan.read =
      (u.latches.isOccupied .decode && (!u.latches.isOccupied .read || u.plan.execute)) := rfl

theorem plan_execute (u : ComputeUnit) :
    u.plan.execute = (u.latches.isOccupied .read && u.executing.isNone) := rfl

/-- Whatever waits behind the execute stage is written back. -/
theorem taken_write (u : ComputeUnit) : u.taken .write = u.latches.execute.current := by
  rcases held : u.latches.execute.current with _ | slot <;>
    simp [taken, plan, Latches.isOccupied, Latches.get, Latch.isOccupied, held]

/-- The stage after it never holds the execute stage up. -/
theorem canEmit_plan (u : ComputeUnit) : u.plan.canEmit = true := by
  simp [plan]

/-- A slot is taken up for execution only when none is being executed. -/
theorem executing_eq_none_of_taken {slot : Slot} (taken : u.taken .execute = some slot) :
    u.executing = none := by
  simp only [ComputeUnit.taken, plan, Bool.and_eq_true, Option.isNone_iff_eq_none,
    Option.ite_none_right_eq_some] at taken
  exact taken.1.2

/-- The latch of a stage that leaves a slot behind is empty, or emptied in the same cycle. -/
theorem room_of_given {stage : Stage} (given : (u.given cycle a stage).isSome = true) :
    (u.taken stage.reader).isSome = true ∨ (u.latches.get stage).current = none := by
  rcases held : (u.latches.get stage).current with _ | slot
  · exact Or.inr rfl
  left
  cases stage with
  | schedule =>
      have fires : u.plan.fetch = true := by
        apply eq_true_of_ne_false
        intro stalled
        simp_all [ComputeUnit.given, issued, plan_issue, Latches.isOccupied, Latches.get,
          Latch.isOccupied]
      simpa [Stage.reader, taken, fires, Latches.get] using congrArg Option.isSome held
  | fetch =>
      have fires : u.plan.decode = true := by
        apply eq_true_of_ne_false
        intro stalled
        simp_all [ComputeUnit.given, taken, plan_fetch, Latches.isOccupied, Latches.get,
          Latch.isOccupied]
      simpa [Stage.reader, taken, fires, Latches.get] using congrArg Option.isSome held
  | decode =>
      have fires : u.plan.read = true := by
        apply eq_true_of_ne_false
        intro stalled
        simp_all [ComputeUnit.given, taken, plan_decode, Latches.isOccupied, Latches.get,
          Latch.isOccupied]
      simpa [Stage.reader, taken, fires, Latches.get] using congrArg Option.isSome held
  | read =>
      have fires : u.plan.execute = true := by
        apply eq_true_of_ne_false
        intro stalled
        simp_all [ComputeUnit.given, taken, plan_read, Latches.isOccupied, Latches.get,
          Latch.isOccupied]
      simpa [Stage.reader, taken, fires, Latches.get] using congrArg Option.isSome held
  | execute => simpa [Stage.reader, taken_write, Latches.get] using congrArg Option.isSome held
  | write => cases held

end

end ComputeUnit

end Accelerator
