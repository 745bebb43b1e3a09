import Accelerator.ComputeUnit.Plan
import Accelerator.Memory
import Accelerator.Trace.Event

/-!
# One cycle of a compute unit

A unit advances by one cycle in three phases: it makes a plan, evaluates its stages in some order, and
commits. A stage reads what is committed and stages what it produces, and what happens to a wavefront
is noted during the evaluation and carried out at the commit. So no stage sees what another one has
done in the same cycle.

A `Bench` is a unit together with the instruction model and the memory that it works with, and with
what the stages have noted. `Bench.step` is the whole cycle; a refused one has no effect at all.
-/

namespace Accelerator

/-- What is carried out on a wavefront at the end of a cycle. -/
inductive WavefrontUpdate where
  /-- It has issued an instruction. -/
  | issued (index : Nat)
  /-- An instruction of it was written back. -/
  | written (index nextPc : Nat) (retired : Bool)
deriving DecidableEq, Inhabited

namespace WavefrontUpdate

/-- Position of the wavefront in its work-group. -/
def index : WavefrontUpdate → Nat
  | issued index => index
  | written index _ _ => index

def apply : WavefrontUpdate → Resident → Resident
  | issued _, r => { r with inFlight := true }
  | written _ nextPc retired, r =>
    { r with inFlight := false, pc := nextPc, retired := r.retired || retired }

end WavefrontUpdate

/-- How a cycle ends for a unit. -/
inductive Progress where
  | running
  /-- The work-group is finished, and can be released. -/
  | finished (group : Nat)
deriving DecidableEq, Inhabited

/-- What all stages of one cycle go by. -/
structure Turn where
  cycle : Nat
  /-- The work-group that the unit holds. -/
  group : Nat
  plan : Plan
deriving DecidableEq, Inhabited

/-- A unit at work. -/
structure Bench (ι μ : Type) where
  unit : ComputeUnit
  isa : ι
  memory : μ
  /-- The events of this cycle, in the order in which they happened. -/
  events : List TraceEvent := []
  /-- What will be carried out at the end of this cycle, in order. -/
  updates : List WavefrontUpdate := []

namespace Bench

variable {ι μ : Type}

/-! ## What stages are made of -/

def emit (b : Bench ι μ) (e : TraceEvent) : Bench ι μ := { b with events := b.events ++ [e] }

def note (b : Bench ι μ) (update : WavefrontUpdate) : Bench ι μ :=
  { b with updates := b.updates ++ [update] }

def setLatch (b : Bench ι μ) (stage : Stage) (latch : Latch Slot) : Bench ι μ :=
  { b with unit := { b.unit with latches := b.unit.latches.set stage latch } }

/-- Something happens to a slot at a stage. -/
def event (b : Bench ι μ) (turn : Turn) (stage : Stage) (action : Action) (slot : Slot) :
    TraceEvent where
  cycle := turn.cycle
  unit := b.unit.id
  group := turn.group
  wavefront := some slot.wavefront
  stage := some stage
  action

/-- The wavefront that a slot belongs to. -/
def wavefrontOf (b : Bench ι μ) (slot : Slot) : Except Error Wavefront :=
  match b.unit.wavefronts[slot.index]? with
  | some r => pure r.wavefront
  | none => throw (.fault .indexOutside)

/-- A stage takes the slot that the stage `source` has left for it. -/
def consume (b : Bench ι μ) (turn : Turn) (stage source : Stage) : Option (Slot × Bench ι μ) :=
  match (b.unit.latches.get source).take with
  | (none, _) => none
  | (some slot, latch) =>
    some (slot, (b.setLatch source latch).emit
      ((b.event turn stage .consume slot).withProducedAt slot.producedAt))

/-- A stage leaves a slot for the next stage. -/
def produce (b : Bench ι μ) (turn : Turn) (stage : Stage) (slot : Slot) :
    Except Error (Bench ι μ) :=
  let slot := { slot with producedAt := turn.cycle }
  match (b.unit.latches.get stage).push? slot with
  | some latch => return (b.emit (b.event turn stage .produce slot)).setLatch stage latch
  | none => throw (.latchOverrun b.unit.id stage)

variable [InstructionModel ι] [MemoryService μ]

/-! ## The stages -/

/-- The schedule stage issues the next instruction of a wavefront, and the search for the following
one starts behind it. -/
def scheduleStage (turn : Turn) (b : Bench ι μ) : Except Error (Bench ι μ) :=
  match turn.plan.issue with
  | none => return b
  | some index =>
    match b.unit.wavefronts[index]? with
    | none => throw (.fault .indexOutside)
    | some r =>
      let cursor := (index + 1) % b.unit.wavefronts.size
      let b := { b with unit := { b.unit with cursor } }
      (b.note (.issued index)).produce turn .schedule
        { wavefront := r.wavefront.id, index, pc := r.pc, producedAt := turn.cycle }

/-- What a stage of a single cycle does to a slot. The read stage lets it pass as it is. -/
def transform (b : Bench ι μ) (stage : Stage) (slot : Slot) : Except Error (Slot × Bench ι μ) :=
  match stage with
  | .fetch => do
    let (inst, isa) := InstructionModel.fetch b.isa (← b.wavefrontOf slot) slot.pc
    return ({ slot with instruction := some inst }, { b with isa })
  | .decode =>
    match slot.instruction with
    | some inst =>
      let (inst, isa) := InstructionModel.decode b.isa inst
      return ({ slot with instruction := some inst }, { b with isa })
    | none => return (slot, b)
  | _ => return (slot, b)

/-- A stage of a single cycle takes a slot from the stage before it and hands it on. -/
def transferStage (turn : Turn) (stage source : Stage) (fires : Bool) (b : Bench ι μ) :
    Except Error (Bench ι μ) :=
  if fires then
    match b.consume turn stage source with
    | none => return b
    | some (slot, b) => do
      let (slot, b) ← b.transform stage slot
      b.produce turn stage slot
  else return b

/-- The execute stage takes up a new slot, which will stay for a turn of each sub-wavefront. -/
def beginExecution (turn : Turn) (b : Bench ι μ) : Except Error (Bench ι μ) :=
  if turn.plan.execute then
    match b.consume turn .execute .read with
    | none => return b
    | some (slot, b) => do
      match (← b.wavefrontOf slot).subwavefrontCount? b.unit.lanes.length with
      | none => throw (.fault .zeroDivisor)
      | some turns =>
        return { b with unit := { b.unit with
          executing := some { slot, turns, readyAt := turn.cycle } } }
  else return b

/-- The lanes process the next sub-wavefront, and memory takes the request it makes. -/
def executeTurn [Sums] (turn : Turn) (ex : Execution) (b : Bench ι μ) :
    Except Error (Execution × Bench ι μ) := do
  let w ← b.wavefrontOf ex.slot
  let items ← Sums.need (w.subwavefront? ex.turn b.unit.lanes.length)
  Sums.need (Sums.guard? (w.holdsIds items))
  let kind := (ex.slot.instruction.map (·.kind)).getD .alu
  let lanes := Lane.issueAll b.unit.lanes items fun item =>
    { wavefront := w.id, item := w.globalId item, kind, cycle := turn.cycle }
  let b := { b with unit := { b.unit with lanes } }
  let ex := { ex with turn := ex.turn + 1 }
  match ex.slot.instruction with
  | none => return (ex, b)
  | some inst =>
    Sums.need (Sums.guard? (InstructionModel.holdsExecute b.isa w inst items))
    match InstructionModel.execute b.isa w inst items with
    | (none, isa) => return (ex, { b with isa })
    | (some request, isa) =>
      Sums.need (Sums.guard? (MemoryService.holdsAccess b.memory request turn.cycle))
      let (readyAt, memory) := MemoryService.access b.memory request turn.cycle
      let stats := { b.unit.stats with requests := b.unit.stats.requests + 1 }
      let b := { b with isa, memory, unit := { b.unit with stats } }
      return ({ ex with readyAt := max ex.readyAt readyAt },
        b.emit (b.event turn .execute .memoryIssue ex.slot))

/-- The execute stage works on its slot, and hands it on when all turns are over, the results are
there and the next stage can take it. In every cycle without a turn the lanes idle. -/
def executeStage [Sums] (turn : Turn) (b : Bench ι μ) : Except Error (Bench ι μ) := do
  let b ← b.beginExecution turn
  match b.unit.executing with
  | none => return { b with unit := b.unit.idleLanes }
  | some ex =>
    let (ex, b) ←
      if ex.turn < ex.turns then b.executeTurn turn ex
      else pure (ex, { b with unit := b.unit.idleLanes })
    if ex.turn < ex.turns ∨ turn.cycle < ex.readyAt ∨ !turn.plan.canEmit then
      return { b with unit := { b.unit with executing := some ex } }
    else
      let b := { b with unit := { b.unit with executing := none } }
      b.produce turn .execute ex.slot

/-- The write stage retires an instruction, and with the last one its wavefront. -/
def writeStage (turn : Turn) (b : Bench ι μ) : Except Error (Bench ι μ) :=
  if turn.plan.write then
    match b.consume turn .write .execute with
    | none => return b
    | some (slot, b) => do
      let (retired, b) ←
        match slot.instruction with
        | none => pure (false, b)
        | some inst =>
          let (retired, isa) := InstructionModel.write b.isa (← b.wavefrontOf slot) inst
          pure (retired, { b with isa })
      let stats := { b.unit.stats with instructions := b.unit.stats.instructions + 1 }
      let b := { b with unit := { b.unit with stats } }
      let b := b.note (.written slot.index (slot.pc + 1) retired)
      return if retired then b.emit (b.event turn .write .retire slot) else b
  else return b

def runStage [Sums] (turn : Turn) (b : Bench ι μ) : Stage → Except Error (Bench ι μ)
  | .schedule => b.scheduleStage turn
  | .fetch => b.transferStage turn .fetch .schedule turn.plan.fetch
  | .decode => b.transferStage turn .decode .fetch turn.plan.decode
  | .read => b.transferStage turn .read .decode turn.plan.read
  | .execute => b.executeStage turn
  | .write => b.writeStage turn

/-! ## The cycle -/

/-- Carry out one of the things noted. -/
def applyUpdate (wavefronts : Array Resident) (update : WavefrontUpdate) :
    Except Error (Array Resident) :=
  if update.index < wavefronts.size then return wavefronts.modify update.index update.apply
  else throw (.fault .indexOutside)

/-- Make what the stages have produced and noted the state of the next cycle. -/
def commit (b : Bench ι μ) : Except Error (Bench ι μ) :=
  match b.unit.latches.commit with
  | .error stage => throw (.latchOverrun b.unit.id stage)
  | .ok latches => do
    let wavefronts ← b.updates.foldlM applyUpdate b.unit.wavefronts
    return { b with unit := { b.unit with latches, wavefronts }, updates := [] }

def countCycle (b : Bench ι μ) : Bench ι μ :=
  { b with unit := { b.unit with
    stats := { b.unit.stats with busyCycles := b.unit.stats.busyCycles + 1 } } }

/-- Evaluate the stages in a given order, commit, and count the cycle. -/
def advance [Sums] (order : StageOrder) (cycle group : Nat) (b : Bench ι μ) :
    Except Error (Bench ι μ) := do
  let turn : Turn := { cycle, group, plan := b.unit.plan }
  let b ← order.stages.foldlM (runStage turn) b
  return (← b.commit).countCycle

/-- Whether a unit that holds a work-group has finished it. -/
def progress (b : Bench ι μ) (group : Nat) : Progress :=
  if b.unit.isDrained then .finished group else .running

/-- One cycle, the stages evaluated in a given order. A unit that has finished its work-group keeps
it, and reports it again without advancing, until it is released. -/
def stepIn [Sums] (order : StageOrder) (cycle : Nat) (b : Bench ι μ) :
    Except Error (Progress × Bench ι μ) :=
  match b.unit.group with
  | none => throw (.idleUnit b.unit.id)
  | some group =>
    if b.unit.isDrained then return (.finished group, b)
    else do
      let b ← b.advance order cycle group
      return (b.progress group, b)

/-- One cycle, the stages evaluated in the unit's own order. -/
def step [Sums] (cycle : Nat) (b : Bench ι μ) : Except Error (Progress × Bench ι μ) :=
  b.stepIn b.unit.order cycle

end Bench

end Accelerator
