import Accelerator.Proofs.Pipeline.Firing

/-!
# Evaluating the stages

Halfway through a cycle some stages have been evaluated and the others have not. `Bench.midway` is
the bench at that point, whatever the stages evaluated so far are: it is made from the committed
state and from the answers of the instruction model and the memory alone. Each stage takes one
such bench to the next (`runStage_midway`), so that the order of evaluation leaves no trace in the
unit.
-/

namespace Accelerator

namespace Bench

/-! ## What the services are asked -/

section Calls

variable {ι μ : Type} [InstructionModel ι] [MemoryService μ]

/-- The answer to the fetch stage, and the model that follows. -/
def fetchCall (u : ComputeUnit) (isa : ι) : Instruction × ι :=
  match u.taken .fetch with
  | none => (default, isa)
  | some slot =>
    match u.wavefront? slot with
    | none => (default, isa)
    | some w => InstructionModel.fetch isa w slot.pc

/-- The answer to the decode stage, and the model that follows. -/
def decodeCall (u : ComputeUnit) (isa : ι) : Instruction × ι :=
  match (u.taken .decode).bind (·.instruction) with
  | none => (default, isa)
  | some inst => InstructionModel.decode isa inst

/-- The request of the execute stage, and the model that follows. -/
def executeCall (u : ComputeUnit) (cycle : Nat) (isa : ι) : Option MemoryRequest × ι :=
  match u.atWork cycle with
  | none => (none, isa)
  | some ex =>
    if ex.hasTurn then
      match u.wavefront? ex.slot, ex.slot.instruction with
      | some w, some inst =>
        InstructionModel.execute isa w inst (w.subwavefront ex.turn u.lanes.length)
      | _, _ => (none, isa)
    else (none, isa)

/-- The answer to the write stage, and the model that follows. -/
def writeCall (u : ComputeUnit) (isa : ι) : Bool × ι :=
  match u.taken .write with
  | none => (false, isa)
  | some slot =>
    match u.wavefront? slot, slot.instruction with
    | some w, some inst => InstructionModel.write isa w inst
    | _, _ => (false, isa)

/-- The model after a stage. -/
def isaAfter (u : ComputeUnit) (cycle : Nat) (isa : ι) : Stage → ι
  | .fetch => (fetchCall u isa).2
  | .decode => (decodeCall u isa).2
  | .execute => (executeCall u cycle isa).2
  | .write => (writeCall u isa).2
  | .schedule | .read => isa

/-- The memory's answer to a request that may be absent. -/
def memoryCall (memory : μ) (cycle : Nat) (request : Option MemoryRequest) : Option Nat × μ :=
  match request with
  | none => (none, memory)
  | some request => (MemoryService.access memory request cycle).map some id

/-- All answers of a cycle, when each stage finds the model in the given state. -/
def answers (u : ComputeUnit) (memory : μ) (cycle : Nat) (isaAt : Stage → ι) : Answers where
  fetched := (fetchCall u (isaAt .fetch)).1
  decoded := (decodeCall u (isaAt .decode)).1
  ready := (memoryCall memory cycle (executeCall u cycle (isaAt .execute)).1).1
  retired := (writeCall u (isaAt .write)).1

end Calls

/-! ## Halfway through a cycle -/

/-- A latch in the middle of a cycle, when just the stages `done` have been evaluated. -/
def midLatch (u : ComputeUnit) (cycle : Nat) (a : Answers) (done : List Stage)
    (filler reader : Stage) : Latch Slot where
  current :=
    if reader ∈ done ∧ (u.taken reader).isSome then none else (u.latches.get filler).current
  next := if filler ∈ done then u.given cycle a filler else none

variable {ι μ : Type} [InstructionModel ι] [MemoryService μ]

/-- The bench in the middle of a cycle, when just the stages `done` have been evaluated, and each of
them has found the instruction model as `isaAt` says. -/
def midway (b : Bench ι μ) (cycle group : Nat) (isaAt : Stage → ι) (isa : ι) (done : List Stage) :
    Bench ι μ :=
  let u := b.unit
  let a := answers u b.memory cycle isaAt
  { unit := { u with
      latches := {
        schedule := midLatch u cycle a done .schedule .fetch
        fetch := midLatch u cycle a done .fetch .decode
        decode := midLatch u cycle a done .decode .read
        read := midLatch u cycle a done .read .execute
        execute := midLatch u cycle a done .execute .write }
      cursor := if .schedule ∈ done then u.nextCursor else u.cursor
      executing := if .execute ∈ done then (u.worked cycle a).filter (!·.isOver cycle)
        else u.executing
      lanes := if .execute ∈ done then u.nextLanes cycle else u.lanes
      stats := { u.stats with
        requests := u.stats.requests + if .execute ∈ done ∧ a.ready.isSome then 1 else 0
        instructions :=
          u.stats.instructions + if .write ∈ done ∧ (u.taken .write).isSome then 1 else 0 } }
    isa
    memory := if .execute ∈ done then
        (memoryCall b.memory cycle (executeCall u cycle (isaAt .execute)).1).2
      else b.memory
    events := b.events ++ done.flatMap (u.stageEvents cycle group a)
    updates := b.updates ++ done.flatMap (u.stageUpdates cycle a) }

theorem midLatch_nil {u : ComputeUnit} {cycle : Nat} {a : Answers} {filler reader : Stage}
    (settled : u.latches.Settled) : midLatch u cycle a [] filler reader = u.latches.get filler := by
  have unstaged := settled filler
  rcases latch : u.latches.get filler with ⟨current, next⟩
  rw [latch] at unstaged
  subst unstaged
  simp [midLatch, latch]

/-- Nothing is evaluated before the first stage. -/
theorem midway_nil {b : Bench ι μ} {cycle group : Nat} {isaAt : Stage → ι}
    (settled : b.unit.latches.Settled) : b.midway cycle group isaAt b.isa [] = b := by
  simp [midway, midLatch_nil settled, Latches.get]

/-! ## The stages of a single cycle -/

/-- The bench once a stage has taken a slot out of the latch that `source` fills. -/
def taking (b : Bench ι μ) (turn : Turn) (stage source : Stage) (slot : Slot) : Bench ι μ :=
  (b.setLatch source { (b.unit.latches.get source) with current := none }).emit
    ((b.event turn stage .consume slot).withProducedAt slot.producedAt)

omit [MemoryService μ] in
theorem transferStage_of_none {b : Bench ι μ} {turn : Turn} {stage source : Stage} {fires : Bool}
    (nothing : (if fires then (b.unit.latches.get source).current else none) = none) :
    transferStage turn stage source fires b = .ok b := by
  unfold transferStage consume Latch.take
  cases fires with
  | false => rfl
  | true =>
      simp only [if_true] at nothing
      simp only [if_true, nothing]
      rfl

omit [MemoryService μ] in
theorem transferStage_of_some {b : Bench ι μ} {turn : Turn} {stage source : Stage} {fires : Bool}
    {slot : Slot}
    (found : (if fires then (b.unit.latches.get source).current else none) = some slot) :
    transferStage turn stage source fires b =
      ((b.taking turn stage source slot).transform stage slot >>= fun (slot, b) =>
        b.produce turn stage slot) := by
  unfold transferStage consume Latch.take
  cases fires with
  | false => cases found
  | true =>
      simp only [if_true] at found
      simp only [if_true, found]
      rfl

section Stages

variable {b : Bench ι μ} {turn : Turn} {isaAt : Stage → ι} {isa : ι} {done : List Stage}

theorem runStage_schedule (plan : turn.plan = b.unit.plan) (fresh : .schedule ∉ done) :
    runStage turn (b.midway turn.cycle turn.group isaAt isa done) .schedule =
      .ok (b.midway turn.cycle turn.group isaAt isa (done ++ [.schedule])) := by
  rcases issue : b.unit.plan.issue with _ | index
  · simp [runStage, scheduleStage, plan, issue, midway, midLatch, ComputeUnit.given,
      ComputeUnit.issued, ComputeUnit.nextCursor, ComputeUnit.taken, ComputeUnit.stageEvents,
      ComputeUnit.stageUpdates]
    rfl
  · obtain ⟨r, found, -⟩ := ComputeUnit.issuable_of_issue issue
    simp [runStage, scheduleStage, plan, issue, midway, midLatch, ComputeUnit.given,
      ComputeUnit.issued, ComputeUnit.nextCursor, ComputeUnit.taken, ComputeUnit.stageEvents,
      ComputeUnit.stageUpdates, found, setLatch, Latches.set, Latches.get, emit, note, produce,
      Latch.push?, fresh, event, answers, ComputeUnit.stageEvent]
    rfl

theorem runStage_fetch (sound : b.unit.Sound) (plan : turn.plan = b.unit.plan)
    (fresh : .fetch ∉ done) (found : isaAt .fetch = isa) :
    runStage turn (b.midway turn.cycle turn.group isaAt isa done) .fetch =
      .ok (b.midway turn.cycle turn.group isaAt (isaAfter b.unit turn.cycle isa .fetch)
        (done ++ [.fetch])) := by
  subst found
  have source : (if turn.plan.fetch then ((b.midway turn.cycle turn.group isaAt (isaAt .fetch)
      done).unit.latches.get .schedule).current else none) = b.unit.taken .fetch := by
    simp [midway, midLatch, Latches.get, fresh, ComputeUnit.taken, plan]
  rcases taken : b.unit.taken .fetch with _ | slot
  · rw [runStage, transferStage_of_none (source.trans taken)]
    simp [midway, midLatch, taken, isaAfter, fetchCall, ComputeUnit.given,
      ComputeUnit.stageEvents, ComputeUnit.stageUpdates]
  · obtain ⟨r, resident⟩ := sound.resident_of_mem (ComputeUnit.mem_slots_of_taken taken)
    rw [runStage, transferStage_of_some (source.trans taken)]
    simp [midway, midLatch, taken, taking, isaAfter, fetchCall, ComputeUnit.given,
      ComputeUnit.stageEvents, ComputeUnit.stageUpdates, setLatch, Latches.set, Latches.get, emit,
      transform, wavefrontOf, resident, produce, Latch.push?, fresh, event,
      ComputeUnit.wavefront?, answers, ComputeUnit.stageEvent]
    rfl

theorem runStage_decode (plan : turn.plan = b.unit.plan) (fresh : .decode ∉ done)
    (found : isaAt .decode = isa) :
    runStage turn (b.midway turn.cycle turn.group isaAt isa done) .decode =
      .ok (b.midway turn.cycle turn.group isaAt (isaAfter b.unit turn.cycle isa .decode)
        (done ++ [.decode])) := by
  subst found
  have source : (if turn.plan.decode then ((b.midway turn.cycle turn.group isaAt (isaAt .decode)
      done).unit.latches.get .fetch).current else none) = b.unit.taken .decode := by
    simp [midway, midLatch, Latches.get, fresh, ComputeUnit.taken, plan]
  rcases taken : b.unit.taken .decode with _ | slot
  · rw [runStage, transferStage_of_none (source.trans taken)]
    simp [midway, midLatch, taken, isaAfter, decodeCall, ComputeUnit.given,
      ComputeUnit.stageEvents, ComputeUnit.stageUpdates]
  · rw [runStage, transferStage_of_some (source.trans taken)]
    rcases inst : slot.instruction with _ | inst' <;>
    · simp [midway, midLatch, taken, taking, isaAfter, decodeCall, ComputeUnit.given,
        ComputeUnit.stageEvents, ComputeUnit.stageUpdates, setLatch, Latches.set, Latches.get,
        emit, transform, inst, produce, Latch.push?, fresh, event, answers,
        ComputeUnit.stageEvent]
      rfl

theorem runStage_read (plan : turn.plan = b.unit.plan) (fresh : .read ∉ done) :
    runStage turn (b.midway turn.cycle turn.group isaAt isa done) .read =
      .ok (b.midway turn.cycle turn.group isaAt isa (done ++ [.read])) := by
  have source : (if turn.plan.read then ((b.midway turn.cycle turn.group isaAt isa
      done).unit.latches.get .decode).current else none) = b.unit.taken .read := by
    simp [midway, midLatch, Latches.get, fresh, ComputeUnit.taken, plan]
  rcases taken : b.unit.taken .read with _ | slot
  · rw [runStage, transferStage_of_none (source.trans taken)]
    simp [midway, midLatch, taken, ComputeUnit.given, ComputeUnit.stageEvents,
      ComputeUnit.stageUpdates]
  · rw [runStage, transferStage_of_some (source.trans taken)]
    simp [midway, midLatch, taken, taking, ComputeUnit.given, ComputeUnit.stageEvents,
      ComputeUnit.stageUpdates, setLatch, Latches.set, Latches.get, emit, transform, produce,
      Latch.push?, fresh, event, answers, ComputeUnit.stageEvent]
    rfl

theorem runStage_write (sound : b.unit.Sound) (plan : turn.plan = b.unit.plan)
    (fresh : .write ∉ done) (found : isaAt .write = isa) :
    runStage turn (b.midway turn.cycle turn.group isaAt isa done) .write =
      .ok (b.midway turn.cycle turn.group isaAt (isaAfter b.unit turn.cycle isa .write)
        (done ++ [.write])) := by
  subst found
  rcases taken : b.unit.taken .write with _ | slot
  · have nothing : b.unit.latches.execute.current = none := b.unit.taken_write ▸ taken
    simp [runStage, writeStage, nothing, midway, midLatch, taken, isaAfter, writeCall,
      ComputeUnit.given, ComputeUnit.stageEvents, ComputeUnit.stageUpdates, consume, Latches.get,
      Latch.take]
    rfl
  · obtain ⟨r, resident⟩ := sound.resident_of_mem (ComputeUnit.mem_slots_of_taken taken)
    have fires : b.unit.plan.write = true ∧ b.unit.latches.execute.current = some slot := by
      simpa [ComputeUnit.taken] using taken
    rcases inst : slot.instruction with _ | inst'
    · simp [runStage, writeStage, plan, fires, midway, midLatch, taken, isaAfter, writeCall,
        ComputeUnit.given, ComputeUnit.stageEvents, ComputeUnit.stageUpdates, consume,
        Latches.get, Latches.set, Latch.take, fresh, inst, answers, setLatch, emit, note, event,
        ComputeUnit.stageEvent, ComputeUnit.wavefront?, resident]
      rfl
    · rcases retired : (InstructionModel.write (isaAt .write) r.wavefront inst').1 with _ | _ <;>
      · simp [runStage, writeStage, plan, fires, midway, midLatch, taken, isaAfter, writeCall,
          ComputeUnit.given, ComputeUnit.stageEvents, ComputeUnit.stageUpdates, consume,
          Latches.get, Latches.set, Latch.take, fresh, inst, answers, setLatch, emit, note, event,
          ComputeUnit.stageEvent, ComputeUnit.wavefront?, resident, wavefrontOf, retired]
        rfl

/-! ## The execute stage -/

/-- A number of lanes that is a divisor gives every wavefront a number of turns. -/
theorem subwavefrontCount?_of_width {w : Wavefront} {lanes : Nat}
    (width : laneWord (max lanes 1) ≠ 0) : ∃ turns, w.subwavefrontCount? lanes = some turns := by
  simp [Wavefront.subwavefrontCount?, width]

/-- The bench once the execute stage has taken up its slot. -/
def begun (b c : Bench ι μ) (turn : Turn) : Bench ι μ :=
  match b.unit.taken .execute with
  | none => c
  | some slot =>
    let c := c.taking turn .execute .read slot
    { c with unit := { c.unit with executing := b.unit.atWork turn.cycle } }

theorem beginExecution_midway (sound : b.unit.Sound) (plan : turn.plan = b.unit.plan)
    (fresh : .execute ∉ done) :
    beginExecution turn (b.midway turn.cycle turn.group isaAt isa done) =
      .ok (b.begun (b.midway turn.cycle turn.group isaAt isa done) turn) := by
  rcases taken : b.unit.taken .execute with _ | slot
  · have nothing : b.unit.plan.execute = false ∨ b.unit.latches.read.current = none := by
      simp [ComputeUnit.taken] at taken
      cases h : b.unit.plan.execute <;> simp_all
    rcases nothing with nothing | nothing <;>
    · simp [beginExecution, plan, nothing, begun, taken, midway, midLatch, consume, Latches.get,
        Latch.take]
      rfl
  · obtain ⟨r, resident⟩ := sound.resident_of_mem (ComputeUnit.mem_slots_of_taken taken)
    obtain ⟨turns, counted⟩ := subwavefrontCount?_of_width (w := r.wavefront) sound.width
    have fires : b.unit.plan.execute = true ∧ b.unit.latches.read.current = some slot := by
      simpa [ComputeUnit.taken] using taken
    simp [beginExecution, plan, fires, begun, taken, midway, midLatch, consume, Latches.get,
      Latch.take, fresh, wavefrontOf, resident, setLatch, emit, taking, Latches.set,
      ComputeUnit.atWork, ComputeUnit.wavefront?, counted, event]
    rfl

theorem executing_begun (fresh : .execute ∉ done) :
    (b.begun (b.midway turn.cycle turn.group isaAt isa done) turn).unit.executing =
      b.unit.atWork turn.cycle := by
  unfold begun
  split
  next nothing => simp [ComputeUnit.atWork, nothing, midway, fresh]
  next => rfl

/-- Taking up a slot leaves wavefronts, lanes and services alone. -/
theorem begun_fields (fresh : .execute ∉ done) :
    let c := b.begun (b.midway turn.cycle turn.group isaAt isa done) turn
    c.unit.wavefronts = b.unit.wavefronts ∧ c.unit.lanes = b.unit.lanes ∧ c.isa = isa ∧
      c.memory = b.memory := by
  unfold begun
  split <;> simp [taking, emit, setLatch, midway, fresh]

/-- The bench once the slot in the execute stage has had its turn, if it has one left. -/
def turned (b c : Bench ι μ) (turn : Turn) (ex : Execution) : Bench ι μ :=
  let call := executeCall b.unit turn.cycle c.isa
  let reply := memoryCall c.memory turn.cycle call.1
  { c with
    isa := call.2
    memory := reply.2
    unit := { c.unit with
      lanes := b.unit.nextLanes turn.cycle
      stats := { c.unit.stats with
        requests := c.unit.stats.requests + if reply.1.isSome then 1 else 0 } }
    events := c.events ++
      if reply.1.isSome then [c.event turn .execute .memoryIssue ex.slot] else [] }

theorem turn_eq {c : Bench ι μ} {ex : Execution} {r : Resident}
    (working : b.unit.atWork turn.cycle = some ex)
    (found : b.unit.wavefronts[ex.slot.index]? = some r)
    (wavefronts : c.unit.wavefronts = b.unit.wavefronts) (lanes : c.unit.lanes = b.unit.lanes) :
    (if ex.turn < ex.turns then c.executeTurn turn ex
      else pure (ex, { c with unit := c.unit.idleLanes })) =
      .ok (ex.advance (memoryCall c.memory turn.cycle (executeCall b.unit turn.cycle c.isa).1).1,
        b.turned c turn ex) := by
  by_cases more : ex.turn < ex.turns
  · rw [if_pos more]
    rcases inst : ex.slot.instruction with _ | inst'
    · simp [executeTurn, wavefrontOf, wavefronts, lanes, found, inst, turned, Execution.advance,
        Execution.hasTurn, more, executeCall, working, ComputeUnit.wavefront?, memoryCall,
        ComputeUnit.nextLanes]
      rfl
    · rcases request : (InstructionModel.execute c.isa r.wavefront inst'
          (r.wavefront.subwavefront ex.turn b.unit.lanes.length)) with ⟨_ | request', isa'⟩ <;>
      · simp [executeTurn, wavefrontOf, wavefronts, lanes, found, inst, turned, Execution.advance,
          Execution.hasTurn, more, executeCall, working, ComputeUnit.wavefront?, memoryCall,
          ComputeUnit.nextLanes, request, emit, event]
        rfl
  · simp [more, turned, Execution.advance, Execution.hasTurn, executeCall, working, memoryCall,
      ComputeUnit.nextLanes, ComputeUnit.wavefront?, found, ComputeUnit.idleLanes, lanes]
    rfl

theorem executeStage_of_none {c : Bench ι μ} (begins : beginExecution turn b = .ok c)
    (nothing : c.unit.executing = none) :
    executeStage turn b = .ok { c with unit := c.unit.idleLanes } := by
  rw [executeStage, begins]
  simp only [bind, Except.bind, nothing]
  rfl

theorem executeStage_of_some {c d : Bench ι μ} {ex ex' : Execution}
    (begins : beginExecution turn b = .ok c) (something : c.unit.executing = some ex)
    (turns : (if ex.turn < ex.turns then c.executeTurn turn ex
      else pure (ex, { c with unit := c.unit.idleLanes })) = .ok (ex', d))
    (canEmit : turn.plan.canEmit = true) :
    executeStage turn b =
      if ex'.isOver turn.cycle then
        ({ d with unit := { d.unit with executing := none } } : Bench ι μ).produce turn .execute
          ex'.slot
      else .ok { d with unit := { d.unit with executing := some ex' } } := by
  have stays : (ex'.turn < ex'.turns ∨ turn.cycle < ex'.readyAt ∨ (!turn.plan.canEmit) = true) ↔
      ¬ ex'.isOver turn.cycle = true := by
    simp only [canEmit, Execution.isOver, Execution.hasTurn, Bool.and_eq_true,
      Bool.not_eq_true', decide_eq_false_iff_not, decide_eq_true_eq]
    simp
    omega
  rw [executeStage, begins]
  simp only [bind, Except.bind, something]
  by_cases more : ex.turn < ex.turns
  · rw [if_pos more] at turns ⊢
    simp only [turns, stays]
    cases h : ex'.isOver turn.cycle <;> simp <;> rfl
  · rw [if_neg more] at turns ⊢
    simp only [turns, stays]
    cases h : ex'.isOver turn.cycle <;> simp <;> rfl

theorem runStage_execute (sound : b.unit.Sound) (plan : turn.plan = b.unit.plan)
    (fresh : .execute ∉ done) (found : isaAt .execute = isa) :
    runStage turn (b.midway turn.cycle turn.group isaAt isa done) .execute =
      .ok (b.midway turn.cycle turn.group isaAt (isaAfter b.unit turn.cycle isa .execute)
        (done ++ [.execute])) := by
  subst found
  have canEmit : turn.plan.canEmit = true := by rw [plan, ComputeUnit.canEmit_plan]
  let before := b.midway turn.cycle turn.group isaAt (isaAt .execute) done
  have begins : beginExecution turn before = .ok (b.begun before turn) :=
    beginExecution_midway sound plan fresh
  have executing : (b.begun before turn).unit.executing = b.unit.atWork turn.cycle :=
    executing_begun fresh
  obtain ⟨wavefronts, lanes, isa, memory⟩ :
      (b.begun before turn).unit.wavefronts = b.unit.wavefronts ∧
        (b.begun before turn).unit.lanes = b.unit.lanes ∧
        (b.begun before turn).isa = isaAt .execute ∧
        (b.begun before turn).memory = b.memory := begun_fields fresh
  rw [runStage]
  rcases working : b.unit.atWork turn.cycle with _ | ex
  · have nothing : b.unit.taken .execute = none ∧ b.unit.executing = none := by
      unfold ComputeUnit.atWork at working
      split at working
      · cases working
      · exact ⟨by assumption, working⟩
    rw [executeStage_of_none begins (executing.trans working)]
    simp [before, begun, nothing, midway, midLatch, fresh, ComputeUnit.idleLanes,
      ComputeUnit.nextLanes, working, isaAfter, executeCall, ComputeUnit.given, ComputeUnit.worked,
      ComputeUnit.stageEvents, ComputeUnit.stageUpdates, answers, memoryCall]
  · obtain ⟨r, resident⟩ := sound.resident_of_mem (ComputeUnit.mem_slots_of_atWork working)
    have turns := turn_eq working resident wavefronts lanes
    rw [executeStage_of_some begins (executing.trans working) turns canEmit]
    rw [isa, memory]
    have ready : (answers b.unit b.memory turn.cycle isaAt).ready =
        (memoryCall b.memory turn.cycle
          (executeCall b.unit turn.cycle (isaAt .execute)).1).1 := rfl
    rcases taken : b.unit.taken .execute with _ | slot <;>
      cases leaves : (ex.advance
        (answers b.unit b.memory turn.cycle isaAt).ready).isOver turn.cycle <;>
      simp [before, begun, turned, taken, midway, midLatch, fresh, working, isaAfter,
        ComputeUnit.given, ComputeUnit.worked, ComputeUnit.stageEvents, ComputeUnit.stageUpdates,
        leaves, ← ready, Option.filter, event, ComputeUnit.stageEvent, produce, taking, setLatch, emit,
        Latches.get, Latches.set, Latch.push?]
    · rfl
    · rfl

/-! ## Any stage -/

/-- A stage that has not been evaluated yet takes the bench one step further through the cycle,
whatever the stages before it were. -/
theorem runStage_midway {stage : Stage} (sound : b.unit.Sound) (plan : turn.plan = b.unit.plan)
    (fresh : stage ∉ done) (found : isaAt stage = isa) :
    runStage turn (b.midway turn.cycle turn.group isaAt isa done) stage =
      .ok (b.midway turn.cycle turn.group isaAt (isaAfter b.unit turn.cycle isa stage)
        (done ++ [stage])) := by
  cases stage with
  | schedule => exact runStage_schedule plan fresh
  | fetch => exact runStage_fetch sound plan fresh found
  | decode => exact runStage_decode plan fresh found
  | read => exact runStage_read plan fresh
  | execute => exact runStage_execute sound plan fresh found
  | write => exact runStage_write sound plan fresh found

end Stages

end Bench

end Accelerator
