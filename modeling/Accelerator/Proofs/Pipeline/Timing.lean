import Accelerator.Proofs.Device.Coverage
import Accelerator.Proofs.Device.Makespan
import Accelerator.Proofs.Pipeline.Chronicle
import Accelerator.Proofs.Pipeline.Turns

/-!
# How long a work-group takes

On a memory with a fixed latency it is known how long an instruction stays in the execute stage: for
a turn of each sub-wavefront, and if it accesses memory for the latency besides. `worktime` counts the
cycles in which that stage has had something to do. The other stages have an instruction for one cycle
each, which the tariff `moves` counts.

Both accounts together give the bounds. In every cycle some stage has something to do, so that a group
takes no more cycles than all stages together. The execute stage has one slot at a time, so that it
takes no fewer than that stage alone; and in the first four cycles and in the last one that stage has
nothing to do. A single wavefront has one slot in the pipeline, and so never two stages at once.
-/

namespace Accelerator

namespace SyntheticProgram

/-- How long the results of the instruction at `pc` take. -/
def delay (p : SyntheticProgram) (latency pc : Nat) : Nat := if p.accesses pc then latency else 0

/-- For how many cycles the instruction at `pc` keeps the execute stage, if it has `turns` turns. -/
def hold (p : SyntheticProgram) (latency turns pc : Nat) : Nat := turns + p.delay latency pc

end SyntheticProgram

/-- Being handed on by a stage of a single cycle costs something. -/
def Tariff.moves : Tariff where
  stage stage := if stage = .execute then 0 else 1
  turn _ := 0

/-! ## The time of one instruction in the execute stage -/

namespace Execution

variable {ex : Execution} {delay cycle : Nat} {ready : Option Nat}

/-- Before the cycle `cycle` the slot is as far as it can be, when the results of its last turn take
`delay` cycles. -/
structure Timely (ex : Execution) (delay cycle : Nat) : Prop where
  turn_le : ex.turn ≤ ex.turns
  early : ex.hasTurn = true → ex.readyAt ≤ cycle + delay
  waits : ex.hasTurn = false → cycle ≤ ex.readyAt ∧ ex.readyAt < cycle + delay

/-- For how many cycles before the cycle `cycle` the slot has been in the execute stage. -/
def elapsed (ex : Execution) (delay cycle : Nat) : Nat :=
  ex.turn + if ex.hasTurn then 0 else cycle + delay - (ex.readyAt + 1)

/-- Every turn asks memory, or none does and nothing is to be waited for. -/
def Asks (ex : Execution) (delay cycle : Nat) (ready : Option Nat) : Prop :=
  if ex.hasTurn then ready = some (cycle + delay) ∨ ready = none ∧ delay = 0 else ready = none

theorem advance_of_turn (more : ex.hasTurn = true) (ready : Option Nat) :
    ex.advance ready = { ex with turn := ex.turn + 1, readyAt := max ex.readyAt (ready.getD 0) } :=
  if_pos more

theorem advance_of_turnless (turnless : ex.hasTurn = false) (ready : Option Nat) :
    ex.advance ready = ex :=
  if_neg (ne_true_of_eq_false turnless)

/-- In the last of its cycles the slot has been there for all of its turns and the delay. -/
theorem Timely.last (timely : ex.Timely delay cycle) (asks : ex.Asks delay cycle ready)
    (ended : (ex.advance ready).isOver cycle = true) :
    ex.turns + delay = ex.elapsed delay cycle + 1 := by
  simp only [isOver, Bool.and_eq_true, Bool.not_eq_true', decide_eq_true_eq] at ended
  obtain ⟨turnless, done⟩ := ended
  cases more : ex.hasTurn with
  | true =>
      rw [advance_of_turn more] at turnless done
      have inside : ex.turn < ex.turns := of_decide_eq_true more
      have outside : ¬ ex.turn + 1 < ex.turns := of_decide_eq_false turnless
      have waited : delay = 0 := by
        rw [Asks, if_pos more] at asks
        rcases asks with rfl | ⟨-, none⟩
        · have reached : cycle + delay ≤ cycle := le_trans (le_max_right ..) done
          omega
        · exact none
      rw [elapsed, if_pos more]
      omega
  | false =>
      rw [advance_of_turnless more] at done
      have outside : ¬ ex.turn < ex.turns := of_decide_eq_false more
      have all := timely.turn_le
      have reached := timely.waits more
      rw [elapsed, if_neg (ne_true_of_eq_false more)]
      omega

/-- In every other cycle it goes on to be as far as it can be. -/
theorem Timely.next (timely : ex.Timely delay cycle) (asks : ex.Asks delay cycle ready)
    (stays : (ex.advance ready).isOver cycle = false) :
    (ex.advance ready).Timely delay (cycle + 1) ∧
      (ex.advance ready).elapsed delay (cycle + 1) = ex.elapsed delay cycle + 1 := by
  have waiting : (ex.advance ready).hasTurn = false → cycle < (ex.advance ready).readyAt := by
    intro turnless
    rw [isOver, turnless, Bool.not_false, Bool.true_and] at stays
    exact Nat.lt_of_not_le (of_decide_eq_false stays)
  cases more : ex.hasTurn with
  | true =>
      rw [advance_of_turn more] at waiting ⊢
      have inside : ex.turn < ex.turns := of_decide_eq_true more
      have early := timely.early more
      rw [Asks, if_pos more] at asks
      obtain ⟨readyAt, answered⟩ : ∃ readyAt, readyAt = max ex.readyAt (ready.getD 0) := ⟨_, rfl⟩
      -- Either the latest answer sets the time, or there is nothing to wait for.
      have latest : readyAt ≤ cycle + delay ∧ (cycle < readyAt → readyAt = cycle + delay) := by
        rcases asks with rfl | ⟨rfl, none⟩ <;>
          simp only [Option.getD_some, Option.getD_none] at answered <;> omega
      rw [← answered] at waiting ⊢
      refine ⟨⟨inside, fun _ => ?_, fun turnless => ?_⟩, ?_⟩
      · show readyAt ≤ _
        omega
      · have later : cycle < readyAt := waiting turnless
        show cycle + 1 ≤ readyAt ∧ readyAt < _
        omega
      · rw [elapsed, elapsed, if_pos more]
        split
        · rfl
        next turnless =>
          have later : cycle < readyAt := waiting (eq_false_of_ne_true turnless)
          show ex.turn + 1 + (cycle + 1 + delay - (readyAt + 1)) = _
          omega
  | false =>
      rw [advance_of_turnless more] at waiting ⊢
      have reached := timely.waits more
      have later := waiting more
      refine ⟨⟨timely.turn_le, fun turn => ?_, fun _ => by omega⟩, ?_⟩
      · rw [more] at turn
        cases turn
      · rw [elapsed, elapsed, if_neg (ne_true_of_eq_false more), if_neg (ne_true_of_eq_false more)]
        omega

end Execution

namespace ComputeUnit

variable {p : SyntheticProgram} {u : ComputeUnit} {cycle : Nat} {a : Answers}
  {memory : FixedLatency}

/-! ## What is executed -/

/-- What is in the execute stage is as far as it can be. -/
def InTime (u : ComputeUnit) (p : SyntheticProgram) (latency cycle : Nat) : Prop :=
  ∀ ex, u.executing = some ex → ex.Timely (p.delay latency ex.slot.pc) cycle

/-- A slot that is taken up has not been in the stage before, and has a turn. -/
theorem Sound.atWork_of_taken (sound : u.Sound) {slot : Slot} (taken : u.taken .execute = some slot)
    (cycle : Nat) : ∃ ex : Execution, u.atWork cycle = some ex ∧ ex.slot = slot ∧
      ex.hasTurn = true ∧ ex.turn = 0 ∧ ex.readyAt = cycle := by
  have turns := sound.turnsAt_pos (mem_slots_of_taken taken)
  refine ⟨{ slot, turns := u.turnsAt slot.index, readyAt := cycle }, ?_, rfl,
    decide_eq_true turns, rfl, rfl⟩
  rw [atWork, taken]
  rfl

theorem InTime.of_atWork {latency : Nat} (inTime : u.InTime p latency cycle) (sound : u.Sound)
    {ex : Execution} (working : u.atWork cycle = some ex) :
    ex.Timely (p.delay latency ex.slot.pc) cycle := by
  rcases taken : u.taken .execute with _ | slot
  · rw [atWork, taken] at working
    exact inTime ex working
  · obtain ⟨_, new, -, more, turn, readyAt⟩ := sound.atWork_of_taken taken cycle
    cases working.symm.trans new
    have inside : ex.turn < ex.turns := of_decide_eq_true more
    refine ⟨Nat.le_of_lt inside, fun _ => readyAt ▸ Nat.le_add_right .., fun turnless => ?_⟩
    rw [more] at turnless
    cases turnless

/-- A slot that is taken up has not been in the stage for any time. -/
theorem Sound.weight_atWork_elapsed (sound : u.Sound) (delay : Execution → Nat) (cycle : Nat) :
    weight (u.atWork cycle) (fun ex => ex.elapsed (delay ex) cycle) =
      weight u.executing fun ex => ex.elapsed (delay ex) cycle := by
  rcases taken : u.taken .execute with _ | slot
  · rw [atWork, taken]
  · obtain ⟨ex, working, -, more, turn, -⟩ := sound.atWork_of_taken taken cycle
    rw [working, executing_eq_none_of_taken taken]
    simp [weight, Execution.elapsed, more, turn]

/-- The memory answers in every turn of a load or a store, and at the same distance. -/
theorem asks_asked (sound : u.Sound) (follows : u.Follows p) {ex : Execution}
    (working : u.atWork cycle = some ex) :
    ex.Asks (p.delay memory.latency ex.slot.pc) cycle (u.asked p memory cycle).ready := by
  have asks : (u.asked p memory cycle).ready.isSome = (ex.hasTurn && p.accesses ex.slot.pc) := by
    rw [ready_asked sound follows, working]
    rfl
  have answer : ∀ ready, (u.asked p memory cycle).ready = some ready →
      ready = cycle + memory.latency := by
    intro ready given
    simp only [asked, Bench.answers, Bench.memoryCall] at given
    split at given <;> cases given
    rfl
  unfold Execution.Asks SyntheticProgram.delay
  rcases given : (u.asked p memory cycle).ready with _ | ready
  · rw [given, Option.isSome_none] at asks
    split
    next more =>
      rw [more, Bool.true_and] at asks
      exact .inr ⟨rfl, if_neg (ne_true_of_eq_false asks.symm)⟩
    next => rfl
  · rw [given, Option.isSome_some] at asks
    obtain ⟨more, accesses⟩ := Bool.and_eq_true_iff.mp asks.symm
    rw [if_pos more, if_pos accesses, answer ready given]
    exact .inl rfl

/-! ## Time in the execute stage -/

/-- For how many cycles the slot keeps the execute stage, with all of its turns. -/
def holdOf (u : ComputeUnit) (p : SyntheticProgram) (latency : Nat) (slot : Slot) : Nat :=
  p.hold latency (u.turnsAt slot.index) slot.pc

/-- For how many cycles the instructions of a wavefront that are written back were in the execute
stage. -/
def timeOf (u : ComputeUnit) (p : SyntheticProgram) (latency : Nat) (r : Resident) : Nat :=
  ∑ pc ∈ Finset.range r.pc,
    p.hold latency ((r.wavefront.subwavefrontCount? u.lanes.length).getD 0) pc

/-- In how many cycles before the cycle `cycle` the execute stage has had a slot. -/
def worktime (u : ComputeUnit) (p : SyntheticProgram) (latency cycle : Nat) : Nat :=
  (u.wavefronts.toList.map (u.timeOf p latency)).sum +
    weight u.executing (fun ex => ex.elapsed (p.delay latency ex.slot.pc) cycle) +
    weight u.latches.execute.current (u.holdOf p latency)

/-- The execute stage has a slot in the coming cycle, or it has none. -/
def working (u : ComputeUnit) (cycle : Nat) : Nat := if (u.atWork cycle).isSome then 1 else 0

theorem Follows.inTime_next (follows : u.Follows p) (sound : u.Sound)
    (inTime : u.InTime p memory.latency cycle) :
    (u.next cycle (u.asked p memory cycle)).InTime p memory.latency (cycle + 1) := by
  intro ex executing
  obtain ⟨worked, stays⟩ := Option.filter_eq_some_iff.mp executing
  obtain ⟨before, working, rfl⟩ := Option.map_eq_some_iff.mp worked
  rw [Execution.advance_slot]
  exact ((inTime.of_atWork sound working).next (asks_asked sound follows working)
    (Bool.not_eq_true' _ ▸ stays)).1

/-- What is at work has been in the stage for one cycle more after a cycle, or leaves it having been
there for as long as it had to. -/
theorem Follows.weight_elapsed_next (follows : u.Follows p) (sound : u.Sound)
    (inTime : u.InTime p memory.latency cycle) :
    weight (u.next cycle (u.asked p memory cycle)).executing
        (fun ex => ex.elapsed (p.delay memory.latency ex.slot.pc) (cycle + 1)) +
      weight (u.given cycle (u.asked p memory cycle) .execute) (u.holdOf p memory.latency) =
        weight u.executing (fun ex => ex.elapsed (p.delay memory.latency ex.slot.pc) cycle) +
          u.working cycle := by
  have executing : (u.next cycle (u.asked p memory cycle)).executing =
      (u.worked cycle (u.asked p memory cycle)).filter (!·.isOver cycle) := rfl
  rw [← sound.weight_atWork_elapsed (fun ex => p.delay memory.latency ex.slot.pc), executing, given]
  rcases working : u.atWork cycle with _ | ex
  · simp [worked, working, ComputeUnit.working, weight]
  · have worked : u.worked cycle (u.asked p memory cycle) =
        some (ex.advance (u.asked p memory cycle).ready) := by simp [worked, working]
    have timely := inTime.of_atWork sound working
    have asks : ex.Asks (p.delay memory.latency ex.slot.pc) cycle (u.asked p memory cycle).ready :=
      asks_asked sound follows working
    rw [worked]
    cases leaves : (ex.advance (u.asked p memory cycle).ready).isOver cycle with
    | false =>
        have goes := (timely.next asks leaves).2
        simpa [Option.filter, leaves, weight, ComputeUnit.working, working] using goes
    | true =>
        have whole := timely.last asks leaves
        have turns := (follows.of_atWork working).2
        simpa [Option.filter, leaves, weight, ComputeUnit.working, working, holdOf,
          SyntheticProgram.hold, ← turns] using whole

/-- An instruction that is written back is counted with its wavefront from then on. -/
theorem Sound.sum_timeOf_next (sound : u.Sound) (latency cycle : Nat) (a : Answers) :
    ((u.next cycle a).wavefronts.toList.map ((u.next cycle a).timeOf p latency)).sum =
      (u.wavefronts.toList.map (u.timeOf p latency)).sum +
        weight (u.taken .write) (u.holdOf p latency) := by
  have lanes : (u.next cycle a).lanes.length = u.lanes.length := u.nextLanes_length cycle
  have counted : (u.next cycle a).timeOf p latency = u.timeOf p latency := by
    funext r
    rw [timeOf, lanes, timeOf]
  have others : ∀ index, (∀ slot, u.taken .write = some slot → slot.index ≠ index) →
      (u.next cycle a).wavefronts.toList[index]?.map (u.timeOf p latency) =
        u.wavefronts.toList[index]?.map (u.timeOf p latency) := by
    intro index untaken
    have same : ∀ r, u.timeOf p latency (u.nextResident cycle a index r) = u.timeOf p latency r := by
      intro r
      rw [timeOf, nextResident_pc_of_unwritten untaken, nextResident_wavefront, timeOf]
    rw [Array.getElem?_toList, Array.getElem?_toList, getElem?_next, Option.map_map]
    simp only [Function.comp_def, same]
  rw [counted]
  rcases taken : u.taken .write with _ | slot
  · have unchanged : (u.next cycle a).wavefronts.toList.map (u.timeOf p latency) =
        u.wavefronts.toList.map (u.timeOf p latency) := by
      apply List.ext_getElem?
      intro index
      rw [List.getElem?_map, List.getElem?_map]
      exact others index fun slot written => by rw [taken] at written; cases written
    rw [unchanged]
    rfl
  · have member := mem_slots_of_taken taken
    obtain ⟨r, found, -, pc, -⟩ := sound.carried slot member
    have written : u.nextResident cycle a slot.index r =
        { r with inFlight := false, pc := slot.pc + 1, retired := r.retired || a.retired } :=
      nextResident_of_taken taken (fun new issued => sound.issued_ne issued member) r
    have before : u.wavefronts.toList[slot.index]? = some r := by rw [Array.getElem?_toList, found]
    have after : (u.next cycle a).wavefronts.toList[slot.index]? =
        some (u.nextResident cycle a slot.index r) := by
      rw [Array.getElem?_toList, getElem?_next, found, Option.map_some]
    have sums := sum_map_of_change (f := u.timeOf p latency) before after fun index differs =>
      others index fun other written => by
        cases taken.symm.trans written
        exact differs.symm
    have more : u.timeOf p latency (u.nextResident cycle a slot.index r) =
        u.timeOf p latency r + u.holdOf p latency slot := by
      rw [written, timeOf, timeOf, holdOf, turnsAt_of_found found, ← pc]
      exact Finset.sum_range_succ ..
    rw [more] at sums
    show _ = _ + u.holdOf p latency slot
    omega

/-- The time in the execute stage goes up with every cycle in which that stage has a slot. -/
theorem Follows.worktime_next (follows : u.Follows p) (sound : u.Sound)
    (inTime : u.InTime p memory.latency cycle) :
    (u.next cycle (u.asked p memory cycle)).worktime p memory.latency (cycle + 1) =
      u.worktime p memory.latency cycle + u.working cycle := by
  have held : (u.next cycle (u.asked p memory cycle)).holdOf p memory.latency =
      u.holdOf p memory.latency := by
    funext slot
    rw [holdOf, turnsAt_next, holdOf]
  have executed := follows.weight_elapsed_next sound inTime
  have written := sound.sum_timeOf_next (p := p) memory.latency cycle (u.asked p memory cycle)
  have latch := u.weight_nextLatch cycle (u.asked p memory cycle) .execute (by decide)
    (u.holdOf p memory.latency)
  rw [show u.taken Stage.execute.reader = u.latches.execute.current from u.taken_write] at latch
  rw [u.taken_write] at written
  have passed : weight (u.nextLatch cycle (u.asked p memory cycle) .execute).current
      (u.holdOf p memory.latency) = weight (u.given cycle (u.asked p memory cycle) .execute)
        (u.holdOf p memory.latency) := Nat.add_right_cancel latch
  have latches : (u.next cycle (u.asked p memory cycle)).latches.execute =
      u.nextLatch cycle (u.asked p memory cycle) .execute := rfl
  rw [worktime, worktime, written, held, latches, passed]
  omega

/-- For how many cycles all instructions of all wavefronts keep the execute stage. -/
def totalTime (u : ComputeUnit) (p : SyntheticProgram) (latency : Nat) : Nat :=
  (u.wavefronts.toList.map fun r => ∑ pc ∈ Finset.range p.length,
    p.hold latency ((r.wavefront.subwavefrontCount? u.lanes.length).getD 0) pc).sum

theorem totalTime_next (u : ComputeUnit) (p : SyntheticProgram) (latency cycle : Nat) (a : Answers) :
    (u.next cycle a).totalTime p latency = u.totalTime p latency := by
  have lanes : (u.next cycle a).lanes.length = u.lanes.length := u.nextLanes_length cycle
  unfold totalTime
  rw [lanes]
  refine congrArg List.sum (List.ext_getElem? fun index => ?_)
  rw [List.getElem?_map, List.getElem?_map, Array.getElem?_toList, Array.getElem?_toList,
    getElem?_next, Option.map_map]
  simp only [Function.comp_def, nextResident_wavefront]

/-- On a unit that has finished, the execute stage has had every instruction for its time. -/
theorem Finishes.worktime_eq {latency : Nat} (finishes : u.Finishes p) (sound : u.Sound)
    (drained : u.isDrained = true) : u.worktime p latency cycle = u.totalTime p latency := by
  obtain ⟨empty, retired⟩ := sound.isDrained_iff.mp drained
  simp only [slots, List.append_eq_nil_iff, Option.toList_eq_nil_iff, Option.map_eq_none_iff]
    at empty
  have past : ∀ r ∈ u.wavefronts.toList, u.timeOf p latency r = ∑ pc ∈ Finset.range p.length,
      p.hold latency ((r.wavefront.subwavefrontCount? u.lanes.length).getD 0) pc := by
    intro r member
    obtain ⟨index, found⟩ := List.getElem?_of_mem member
    rw [Array.getElem?_toList] at found
    obtain ⟨inside, same⟩ := Array.getElem?_eq_some_iff.mp found
    have ended : r.retired = true := same ▸ Array.all_eq_true.mp retired index inside
    rw [timeOf, finishes index r found ended]
  rw [worktime, totalTime, List.map_congr_left past, empty.2, empty.1.2]
  rfl

/-! ## Stages at work -/

/-- What is paid for movements, and the execute stage: every stage that has a slot counts once. -/
theorem spent_moves_add_working (u : ComputeUnit) (p : SyntheticProgram) (cycle : Nat) (a : Answers) :
    u.spent .moves p cycle a + u.working cycle =
      (Stage.all.map fun stage => weight (u.handled cycle stage) fun _ => 1).sum := by
  have working : u.working cycle = weight (u.handled cycle .execute) fun _ => 1 := by
    rw [ComputeUnit.working, weight_one, handled, Option.isSome_map]
  rw [working]
  simp only [spent, Tariff.moves, Tariff.turnAt, weight_zero, Stage.all, List.map_cons, List.map_nil,
    List.sum_cons, List.sum_nil, handled, reduceCtorEq, if_true, if_false]
  omega

/-- Some stage of a unit with work to do has a slot. -/
theorem Sound.spent_moves_pos (sound : u.Sound) (running : u.isDrained = false) :
    1 ≤ u.spent .moves p cycle a + u.working cycle := by
  refine Nat.pos_of_ne_zero fun still => ?_
  simp only [spent, Tariff.moves, Tariff.turnAt, weight_zero, reduceCtorEq, if_true, if_false,
    Nat.add_zero, Nat.add_eq_zero_iff, weight_one_eq_zero, ComputeUnit.working] at still
  obtain ⟨⟨⟨⟨⟨unissued, fetch⟩, decode⟩, read⟩, write⟩, idle⟩ := still
  have idle : u.atWork cycle = none := by simpa using idle
  have places := u.atWork_toList cycle
  rw [idle, Option.map_none, Option.toList_none, eq_comm, List.append_eq_nil_iff,
    Option.toList_eq_nil_iff, Option.toList_eq_nil_iff, Option.map_eq_none_iff] at places
  have empty := slots_eq_nil_of_still places.2 fetch decode read places.1 write
  exact absurd (sound.isDrained_of_still empty unissued) (ne_true_of_eq_false running)

/-- With one wavefront no two stages have a slot. -/
theorem Sound.spent_moves_le (sound : u.Sound) (one : u.wavefronts.size = 1) :
    u.spent .moves p cycle a + u.working cycle ≤ 1 := by
  have first : ∀ stage slot, u.handled cycle stage = some slot → slot.index = 0 := by
    intro stage slot handled
    obtain ⟨r, found, -⟩ := sound.resident_of_handled handled
    have inside := (Array.getElem?_eq_some_iff.mp found).1
    omega
  rw [spent_moves_add_working]
  by_cases some : ∃ stage slot, u.handled cycle stage = some slot
  · obtain ⟨stage, slot, handled⟩ := some
    have others : ∀ other, other ≠ stage → u.handled cycle other = none := by
      intro other differs
      refine Option.eq_none_iff_forall_not_mem.mpr fun slot' handled' => differs ?_
      exact sound.handled_inj handled' handled
        ((first _ _ handled').trans (first _ _ handled).symm)
    cases stage <;> simp [Stage.all, others, handled, weight]
  · have none : ∀ stage, u.handled cycle stage = none := by
      intro stage
      refine Option.eq_none_iff_forall_not_mem.mpr fun slot handled => some ⟨stage, slot, handled⟩
    simp [Stage.all, none, weight]

/-! ## The first cycles and the last one -/

/-- No slot has come further than to the stage at position `depth`. -/
def Shallow (u : ComputeUnit) (depth : Nat) : Prop :=
  ∀ stage : Stage, depth < stage.index → u.due stage = []

theorem shallow_of_slots_eq_nil (empty : u.slots = []) (depth : Nat) : u.Shallow depth := by
  rw [slots_eq_flatMap, List.flatMap_eq_nil_iff] at empty
  exact fun stage _ => empty stage stage.mem_all

/-- Nothing comes into a latch whose stages on either side have nothing. -/
theorem nextLatch_eq_none {stage : Stage} (later : stage ≠ .schedule) (before : u.due stage = [])
    (behind : u.due stage.reader = []) : (u.nextLatch cycle a stage).current = none := by
  refine Option.eq_none_iff_forall_not_mem.mpr fun slot held => ?_
  rcases current_nextLatch held with given | stayed
  · obtain ⟨old, handled, -⟩ := handled_of_given given
    have member := due_of_handled handled later
    rw [before] at member
    cases member
  · have member := due_of_current stayed
    rw [behind] at member
    cases member

/-- In one cycle slots come one stage further. -/
theorem Shallow.next {depth : Nat} (shallow : u.Shallow depth) (cycle : Nat) (a : Answers) :
    (u.next cycle a).Shallow (depth + 1) := by
  have empty : ∀ stage : Stage, stage ≠ .schedule → depth + 1 < stage.reader.index →
      stage.reader.index = stage.index + 1 → (u.nextLatch cycle a stage).current = none :=
    fun stage later deep next =>
      nextLatch_eq_none later (shallow stage (by omega)) (shallow stage.reader (by omega))
  intro stage deep
  cases stage with
  | schedule => cases deep
  | fetch => exact absurd deep (by simp [Stage.index])
  | decode => exact Option.toList_eq_nil_iff.mpr (empty .fetch (by decide) deep rfl)
  | read => exact Option.toList_eq_nil_iff.mpr (empty .decode (by decide) deep rfl)
  | execute =>
      have idle : (u.next cycle a).executing = none := by
        refine Option.eq_none_iff_forall_not_mem.mpr fun ex executing => ?_
        obtain ⟨worked, -⟩ := Option.filter_eq_some_iff.mp executing
        obtain ⟨before, working, -⟩ := Option.map_eq_some_iff.mp worked
        have handled : u.handled cycle .execute = some before.slot :=
          congrArg (Option.map Execution.slot) working
        have member := due_of_handled handled (by decide)
        rw [shallow .execute (by omega)] at member
        cases member
      have latch := empty .read (by decide) deep rfl
      show (u.nextLatch cycle a .read).current.toList ++ _ = []
      rw [latch, idle]
      rfl
  | write => exact Option.toList_eq_nil_iff.mpr (empty .execute (by decide) deep rfl)

theorem Shallow.working_eq {depth : Nat} (shallow : u.Shallow depth) (early : depth < 4)
    (cycle : Nat) : u.working cycle = 0 := by
  have empty : u.due .execute = [] := shallow .execute early
  have untaken : u.taken .execute = none :=
    Option.eq_none_iff_forall_not_mem.mpr fun slot taken => by
      have member := due_of_taken taken
      rw [empty] at member
      cases member
  have idle : u.executing = none := by
    simp only [due, List.append_eq_nil_iff, Option.toList_eq_nil_iff, Option.map_eq_none_iff] at empty
    exact empty.2
  rw [working, atWork, untaken, idle]
  rfl

/-- In the cycle after which a unit has finished, the execute stage has no slot. -/
theorem working_eq_of_isDrained_next (drained : (u.next cycle a).isDrained = true) :
    u.working cycle = 0 := by
  have empty := slots_eq_nil_of_isDrained drained
  simp only [slots, List.append_eq_nil_iff, Option.toList_eq_nil_iff] at empty
  have unleft : u.given cycle a .execute = none := by
    have latch : (u.nextLatch cycle a .execute).current = none := empty.2
    exact (Option.or_eq_none_iff.mp latch).1
  have places := u.executing_toList cycle a
  rw [← u.atWork_toList, empty.1.2, unleft] at places
  have idle : u.atWork cycle = none := by simpa using places
  rw [working, idle]
  rfl

end ComputeUnit

/-! ## How many steps a unit takes -/

namespace Bench

variable {b : Bench SyntheticProgram FixedLatency} {now group n : Nat}

/-- Between two cycles the unit is where it should be, and runs its program. -/
structure Timed (b : Bench SyntheticProgram FixedLatency) (now group : Nat) : Prop where
  sound : b.unit.Sound
  follows : b.unit.Follows b.isa
  finishes : b.unit.Finishes b.isa
  inTime : b.unit.InTime b.isa b.memory.latency (now + 1)
  kept : .end ∉ b.isa.kinds
  clear : b.updates = []
  held : b.unit.group = some group

/-- A unit with work left to do takes a step, and then it has finished or takes the other steps. -/
theorem Timed.step (timed : b.Timed now group) (running : b.unit.isDrained = false)
    (takes : b.Takes now n) :
    ∃ after : Bench SyntheticProgram FixedLatency,
      after.unit = b.unit.next (now + 1) (b.unit.asked b.isa b.memory (now + 1)) ∧
      after.isa = b.isa ∧ after.memory.latency = b.memory.latency ∧ after.Timed (now + 1) group ∧
      (n = 1 ∧ after.unit.isDrained = true ∨
        ∃ m, n = m + 1 ∧ after.unit.isDrained = false ∧ after.Takes (now + 1) m) := by
  let after := b.cycled b.unit.order (now + 1) group
  obtain ⟨unit, isa, updates⟩ := cycled_of_running running b.unit.order (now + 1) group
  have latency := latency_cycled b b.unit.order (now + 1) group
  have stepped : b.step (now + 1) = .ok (after.progress group, after) :=
    stepIn_eq timed.sound timed.clear timed.held b.unit.order (now + 1)
  refine ⟨after, unit, isa, latency, ⟨?_, ?_, ?_, ?_, ?_, updates, ?_⟩, ?_⟩
  · rw [unit]
    exact timed.sound.next _ _
  · rw [unit, isa]
    exact timed.follows.next timed.sound timed.kept
  · rw [unit, isa]
    exact timed.finishes.next timed.follows timed.sound timed.kept _
  · rw [unit, isa, latency]
    exact timed.follows.inTime_next timed.sound timed.inTime
  · rw [isa]
    exact timed.kept
  · rw [unit]
    exact timed.held
  · cases takes with
    | last done =>
        rw [stepped] at done
        refine .inl ⟨rfl, ?_⟩
        cases drained : after.unit.isDrained with
        | true => rfl
        | false => simp [progress, drained] at done
    | more goes rest =>
        rw [stepped] at goes
        obtain ⟨progressed, same⟩ := Prod.mk.inj (Except.ok.inj goes)
        refine .inr ⟨_, rfl, ?_, same ▸ rest⟩
        cases drained : after.unit.isDrained with
        | true => simp [progress, drained] at progressed
        | false => rfl

/-- The time in the execute stage before the cycle after `now`. -/
def worktime (b : Bench SyntheticProgram FixedLatency) (now : Nat) : Nat :=
  b.unit.worktime b.isa b.memory.latency (now + 1)

/-- For how long the program keeps the execute stage. -/
def totalTime (b : Bench SyntheticProgram FixedLatency) : Nat :=
  b.unit.totalTime b.isa b.memory.latency

theorem Timed.worktime_eq (timed : b.Timed now group) (drained : b.unit.isDrained = true) :
    b.worktime now = b.totalTime :=
  timed.finishes.worktime_eq timed.sound drained

/-- A step adds to the time in the execute stage, and does not change what the program needs. -/
theorem Timed.worktime_next {after : Bench SyntheticProgram FixedLatency}
    (timed : b.Timed now group)
    (unit : after.unit = b.unit.next (now + 1) (b.unit.asked b.isa b.memory (now + 1)))
    (isa : after.isa = b.isa) (latency : after.memory.latency = b.memory.latency) :
    after.worktime (now + 1) = b.worktime now + b.unit.working (now + 1) ∧
      after.totalTime = b.totalTime := by
  unfold worktime totalTime
  rw [unit, isa, latency]
  exact ⟨timed.follows.worktime_next timed.sound timed.inTime, b.unit.totalTime_next ..⟩

/-- A unit takes no more steps than its stages have work for, and with one wavefront as many. -/
theorem Timed.steps_le (timed : b.Timed now group) (running : b.unit.isDrained = false)
    (takes : b.Takes now n) :
    n + b.worktime now ≤ b.unit.owed .moves b.isa + b.totalTime ∧
      (b.unit.wavefronts.size = 1 →
        n + b.worktime now = b.unit.owed .moves b.isa + b.totalTime) := by
  induction n generalizing b now with
  | zero => cases takes
  | succ n ih =>
      obtain ⟨after, unit, isa, latency, timed', goes⟩ := timed.step running takes
      let a := b.unit.asked b.isa b.memory (now + 1)
      obtain ⟨worked, total⟩ := timed.worktime_next unit isa latency
      have paid : after.unit.owed .moves b.isa + b.unit.spent .moves b.isa (now + 1) a =
          b.unit.owed .moves b.isa := by
        rw [unit]
        exact timed.follows.owed_next timed.sound timed.kept .moves
      have some_stage : 1 ≤ b.unit.spent .moves b.isa (now + 1) a + b.unit.working (now + 1) :=
        timed.sound.spent_moves_pos running
      have one_stage : b.unit.wavefronts.size = 1 →
          b.unit.spent .moves b.isa (now + 1) a + b.unit.working (now + 1) ≤ 1 :=
        timed.sound.spent_moves_le
      rcases goes with ⟨last, drained⟩ | ⟨m, more, running', rest⟩
      · have settled : after.unit.owed .moves b.isa = 0 := ComputeUnit.owed_of_isDrained drained
        have done := timed'.worktime_eq drained
        exact ⟨by omega, fun one => by have := one_stage one; omega⟩
      · cases more
        have size : after.unit.wavefronts.size = b.unit.wavefronts.size := by
          rw [unit]
          exact Array.size_mapIdx
        obtain ⟨bound, equal⟩ := ih timed' running' rest
        rw [isa] at bound equal
        refine ⟨by omega, fun one => ?_⟩
        have := equal (size.trans one)
        have := one_stage one
        omega

/-- A unit takes more steps than its execute stage has work for: there is the last one, and those
before the first slot gets there. -/
theorem Timed.le_steps (timed : b.Timed now group) (running : b.unit.isDrained = false)
    (takes : b.Takes now n) (depth : Nat)
    (new : depth < 4 → b.unit.Shallow depth ∧ b.worktime now = 0 ∧ 0 < b.totalTime) :
    b.totalTime + 1 + (4 - depth) ≤ n + b.worktime now := by
  induction n generalizing b now depth with
  | zero => cases takes
  | succ n ih =>
      obtain ⟨after, unit, isa, latency, timed', goes⟩ := timed.step running takes
      obtain ⟨worked, total⟩ := timed.worktime_next unit isa latency
      have idle : depth < 4 → b.unit.working (now + 1) = 0 := fun early =>
        (new early).1.working_eq early (now + 1)
      rcases goes with ⟨last, drained⟩ | ⟨m, more, running', rest⟩
      · have done := timed'.worktime_eq drained
        have idle_last : b.unit.working (now + 1) = 0 := by
          rw [unit] at drained
          exact ComputeUnit.working_eq_of_isDrained_next drained
        have late : ¬ depth < 4 := fun early => by
          have := new early
          omega
        omega
      · cases more
        have bound := ih timed' running' rest (depth + 1) fun early => by
          obtain ⟨shallow, unworked, positive⟩ := new (by omega)
          have unworked' := idle (by omega)
          refine ⟨?_, by omega, by omega⟩
          rw [unit]
          exact shallow.next _ _
        have at_most : b.unit.working (now + 1) ≤ 1 := by
          unfold ComputeUnit.working
          split <;> omega
        rcases Nat.lt_or_ge depth 4 with early | late
        · have := idle early
          omega
        · omega

end Bench

/-! ## A group on a new unit -/

namespace ComputeUnit

variable {u : ComputeUnit} {lanes : Nat} {wavefronts : List Wavefront}

/-- The five stages of a single cycle have every instruction once. -/
theorem span_moves (p : SyntheticProgram) (turns : Nat) :
    Tariff.moves.span p turns 0 = ∑ _pc ∈ Finset.range p.length, 5 := by
  have whole : ∀ pc, Tariff.moves.whole p turns pc = 5 := fun pc => by
    simp [Tariff.whole, Tariff.rest, Tariff.turnAt, Tariff.moves]
  rw [Tariff.span, ← Finset.range_eq_Ico]
  simp only [whole]

theorem totalTime_loaded (u : ComputeUnit) (p : SyntheticProgram) (latency group : Nat)
    (wavefronts : List Wavefront) :
    (u.loaded group wavefronts).totalTime p latency =
      (wavefronts.map fun w => ∑ pc ∈ Finset.range p.length,
        p.hold latency ((w.subwavefrontCount? u.lanes.length).getD 0) pc).sum := by
  simp [totalTime, loaded, Function.comp_def]

theorem Sound.worktime_loaded (sound : u.Sound) (free : u.group = none) (p : SyntheticProgram)
    (latency group cycle : Nat) (wavefronts : List Wavefront) :
    (u.loaded group wavefronts).worktime p latency cycle = 0 := by
  have empty := sound.slots_eq_nil free
  simp only [slots, List.append_eq_nil_iff, Option.toList_eq_nil_iff, Option.map_eq_none_iff]
    at empty
  simp [worktime, timeOf, loaded, Function.comp_def, weight, empty]

/-- Every instruction keeps the execute stage for some time. -/
theorem Sound.totalTime_pos (sound : u.Sound) {index : Nat} {r : Resident}
    (found : u.wavefronts[index]? = some r) (p : SyntheticProgram) (latency : Nat) :
    0 < u.totalTime p latency := by
  obtain ⟨turns, counted⟩ : ∃ turns, r.wavefront.subwavefrontCount? u.lanes.length = some turns :=
    Bench.subwavefrontCount?_of_width sound.width
  have positive : 0 < turns := Wavefront.subwavefrontCount?_pos counted
  have here : 0 < ∑ pc ∈ Finset.range p.length, p.hold latency turns pc := by
    rw [SyntheticProgram.length, Finset.sum_range_succ]
    have last : turns ≤ p.hold latency turns p.kinds.length := Nat.le_add_right ..
    omega
  have member : r ∈ u.wavefronts.toList := Array.mem_toList_iff.mpr (Array.mem_of_getElem? found)
  refine List.sum_pos_iff_exists_pos_nat.mpr ⟨_, List.mem_map_of_mem member, ?_⟩
  rwa [counted, Option.getD_some]

/-- On a memory with a fixed latency a new unit takes as many steps for its group as the execute stage
is kept by all instructions of all wavefronts, and at least five more. Each instruction adds no more
than five; a single wavefront takes exactly that long. -/
theorem takes_within_bounds (kinds : List InstKind) (baseAddr : Nat) (memory : FixedLatency)
    (some_lanes : 0 < lanes) (width : laneWord (max lanes 1) ≠ 0) (some_wavefronts : wavefronts ≠ [])
    (items : ∀ w ∈ wavefronts, w.items.start < w.items.stop) (id deviceId group : Nat)
    (order : StageOrder) :
    let p := SyntheticProgram.ofKinds kinds baseAddr
    let hold := fun (w : Wavefront) pc =>
      p.hold memory.latency ((w.subwavefrontCount? lanes).getD 0) pc
    ∃ u steps, ({ create id deviceId lanes with order } : ComputeUnit).assign group wavefronts =
        .ok u ∧
      Bench.Takes { unit := u, isa := p, memory } 0 steps ∧
      5 + (wavefronts.map fun w => ∑ pc ∈ Finset.range p.length, hold w pc).sum ≤ steps ∧
      steps ≤ (wavefronts.map fun w => ∑ pc ∈ Finset.range p.length, (5 + hold w pc)).sum ∧
      (wavefronts.length = 1 →
        steps = (wavefronts.map fun w => ∑ pc ∈ Finset.range p.length, (5 + hold w pc)).sum) := by
  intro p hold
  have kept : .end ∉ p.kinds := SyntheticProgram.end_notMem_ofKinds kinds baseAddr
  let new : ComputeUnit := { create id deviceId lanes with order }
  have row : new.lanes.length = lanes := by simp [new, create]
  have sound : new.Sound := (Sound.create width).withOrder order
  have follows : new.Follows p := Follows.create p some_lanes order
  obtain ⟨n, drains⟩ := exists_drainsIn_opening kept some_lanes width some_wavefronts items
    memory.latency
  obtain ⟨u, given, takes⟩ := takes_alone_iff memory kept some_lanes width items drains id deviceId
    group 0 (n + 1) order
  have loaded : new.assign group wavefronts = .ok (new.loaded group wavefronts) :=
    new.assign_eq rfl group wavefronts
  cases given.symm.trans loaded
  let b : Bench SyntheticProgram FixedLatency :=
    { unit := new.loaded group wavefronts, isa := p, memory }
  have timed : b.Timed 0 group :=
    { sound := sound.assign loaded
      follows := follows.loaded sound rfl group items
      finishes := new.finishes_loaded p group wavefronts
      inTime := fun _ executing => by cases executing
      kept
      clear := rfl
      held := rfl }
  obtain ⟨w, rest, first⟩ := List.exists_cons_of_ne_nil some_wavefronts
  have found : b.unit.wavefronts[0]? = some { wavefront := w } := by
    simp [b, ComputeUnit.loaded, first]
  have running : b.unit.isDrained = false := by
    simp [b, isDrained, ComputeUnit.loaded, first]
  have unworked : b.worktime 0 = 0 := sound.worktime_loaded rfl p memory.latency group 1 wavefronts
  have total : b.totalTime = (wavefronts.map fun w => ∑ pc ∈ Finset.range p.length, hold w pc).sum := by
    have counted := new.totalTime_loaded p memory.latency group wavefronts
    rwa [row] at counted
  have owed : b.unit.owed .moves p = (wavefronts.map fun _ => ∑ _pc ∈ Finset.range p.length, 5).sum := by
    have price := sound.owed_loaded (t := .moves) (p := p) rfl group wavefronts
    simpa only [Tariff.priceOf, span_moves] using price
  have sums : (wavefronts.map fun w => ∑ pc ∈ Finset.range p.length, (5 + hold w pc)).sum =
      b.unit.owed .moves p + b.totalTime := by
    simp only [owed, total, Finset.sum_add_distrib]
    exact List.sum_map_add
  have lower := timed.le_steps running (takes.mpr rfl) 0 fun _ =>
    ⟨shallow_of_slots_eq_nil rfl 0, unworked, timed.sound.totalTime_pos found p memory.latency⟩
  obtain ⟨upper, single⟩ := timed.steps_le running (takes.mpr rfl)
  rw [unworked, Nat.add_zero] at lower upper single
  refine ⟨_, n + 1, given, takes.mpr rfl, ?_, ?_, fun one => ?_⟩
  · rw [← total]
    omega
  · rw [sums]
    exact upper
  · rw [sums]
    exact single (by simpa [b, ComputeUnit.loaded] using one)

/-- On two lanes, with a memory that takes three cycles, a wavefront of four items has two turns for
each instruction of a load and an addition. With the end of the program the execute stage is kept for
nine cycles, and the group takes fifteen more. -/
theorem takes_within_bounds_of_one_wavefront :
    ∃ u, ({ create 0 0 2 with order := .forward } : ComputeUnit).assign 0
        [{ id := 0, items := ⟨0, 4⟩ }] = .ok u ∧
      Bench.Takes { unit := u, isa := SyntheticProgram.ofKinds [.load, .alu]
                    memory := ({ latency := 3 } : FixedLatency) } 0 24 := by
  obtain ⟨u, steps, given, takes, -, -, single⟩ := takes_within_bounds [.load, .alu] 0
    { latency := 3 } (by decide : 0 < 2) (by decide) (List.cons_ne_nil { id := 0, items := ⟨0, 4⟩ } [])
    (by simp) 0 0 0 .forward
  cases (single rfl).trans (by decide +kernel : _ = 24)
  exact ⟨u, given, takes⟩

end ComputeUnit

end Accelerator
