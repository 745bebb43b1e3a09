import Accelerator.Proofs.Pipeline.Calls
import Accelerator.Proofs.Pipeline.Chronicle

/-!
# How long a slot stays in the execute stage

A slot that the execute stage takes up has a turn for each sub-wavefront of its wavefront, one cycle
after the other. It is handed on in the cycle of its last turn, or as soon as the last result is there
that memory was asked for, if that is later. Nothing else has a say: the latch behind the stage is
emptied in every cycle, and nothing is taken up before the slot has left.

`Execution.after` is the slot some cycles after it was taken up, in closed form. What memory answers
in each of these cycles is a parameter of it, so that no more is said of a memory than what it answers.
-/

namespace Accelerator

/-! ## The execution of a slot, cycle by cycle -/

/-- The latest of the first `n` answers, or `cycle` if none of them is one. -/
def latest (cycle : Nat) (answer : Nat → Option Nat) (n : Nat) : Nat :=
  ((List.range n).filterMap answer).max?.getD cycle

/-- One more answer counts if it is later than those before. -/
theorem max_latest_succ (cycle : Nat) (answer : Nat → Option Nat) (n : Nat) :
    max cycle (latest cycle answer (n + 1)) =
      max (max cycle (latest cycle answer n)) ((answer n).getD 0) := by
  unfold latest
  rw [← List.foldl_max, ← List.foldl_max, List.range_succ, List.filterMap_append, List.foldl_append]
  rcases answered : answer n with _ | readyAt <;> simp [answered]

namespace Execution

variable {cycle turns k : Nat} {answer : Nat → Option Nat}

/-- What has become of a slot `k` cycles after it was taken up, if it is still there. -/
def after (slot : Slot) (turns cycle : Nat) (answer : Nat → Option Nat) (k : Nat) : Execution where
  slot
  turn := min k turns
  turns
  readyAt := max cycle (latest cycle answer (min k turns))

theorem hasTurn_after (slot : Slot) :
    (after slot turns cycle answer k).hasTurn = decide (k < turns) := by
  refine decide_eq_decide.mpr ?_
  show min k turns < turns ↔ k < turns
  omega

theorem turn_after (slot : Slot) (more : k < turns) :
    (after slot turns cycle answer k).turn = k := Nat.min_eq_left (Nat.le_of_lt more)

/-- In a cycle the next turn is over, and the answer of memory is taken in, as long as there are
turns. -/
theorem advance_after (slot : Slot) :
    (after slot turns cycle answer k).advance (answer k) = after slot turns cycle answer (k + 1) := by
  unfold advance
  rw [hasTurn_after]
  by_cases more : k < turns
  · have now : min k turns = k := by omega
    have next : min (k + 1) turns = k + 1 := by omega
    simp only [more, decide_true, if_true, after, now, next, max_latest_succ]
  · have now : min k turns = turns := by omega
    have next : min (k + 1) turns = turns := by omega
    simp only [more, decide_false, Bool.false_eq_true, if_false, after, now, next]

/-- The slot is through with its turn of a cycle and with everything else exactly from the last of its
turns and the last of the answers on. -/
theorem isOver_after (slot : Slot) (positive : 0 < turns) :
    (after slot turns cycle answer (k + 1)).isOver (cycle + k) =
      decide (max (cycle + turns - 1) (latest cycle answer turns) ≤ cycle + k) := by
  unfold isOver
  rw [hasTurn_after]
  by_cases last : k + 1 < turns
  · have early : ¬ max (cycle + turns - 1) (latest cycle answer turns) ≤ cycle + k := by omega
    simp [last, early]
  · have all : min (k + 1) turns = turns := by omega
    simp only [last, decide_false, Bool.not_false, Bool.true_and, after, all]
    exact decide_eq_decide.mpr (by omega)

end Execution

namespace ComputeUnit

variable {ι μ : Type} [InstructionModel ι] [MemoryService μ] {u : ComputeUnit}
  {cycle group lanes : Nat} {a : Answers} {w : Wavefront} {ex : Execution} {slot : Slot}

/-! ## A unit at work on a slot -/

/-- The unit holds a work-group, and has a slot of it in the execute stage in the coming cycle. -/
structure Engaged (u : ComputeUnit) (group cycle : Nat) (w : Wavefront) (ex : Execution) : Prop where
  sound : u.Sound
  held : u.group = some group
  wavefront : u.wavefront? ex.slot = some w
  working : u.atWork cycle = some ex

/-- A slot that is taken up is of a wavefront on the unit, and has at least one turn. -/
theorem Sound.engaged (sound : u.Sound) (taken : u.taken .execute = some slot) (cycle : Nat) :
    ∃ w turns group, w.subwavefrontCount? u.lanes.length = some turns ∧ 0 < turns ∧
      ∀ answer, u.Engaged group cycle w (.after slot turns cycle answer 0) := by
  have member : slot ∈ u.slots := mem_slots_of_taken taken
  obtain ⟨r, -, wavefront⟩ := wavefront?_of_mem sound member
  obtain ⟨turns, counted⟩ : ∃ turns, r.wavefront.subwavefrontCount? u.lanes.length = some turns :=
    Bench.subwavefrontCount?_of_width sound.width
  have positive : 0 < turns := Wavefront.subwavefrontCount?_pos counted
  obtain ⟨group, held⟩ : ∃ group, u.group = some group := by
    refine Option.ne_none_iff_exists'.mp fun free => ?_
    rw [sound.slots_eq_nil free] at member
    cases member
  refine ⟨r.wavefront, turns, group, counted, positive, fun answer => ⟨sound, held, wavefront, ?_⟩⟩
  have empty : latest cycle answer 0 = cycle := rfl
  simp [atWork, taken, wavefront, counted, Execution.after, empty]

theorem Engaged.isDrained_eq (engaged : u.Engaged group cycle w ex) : u.isDrained = false := by
  refine eq_false_of_ne_true fun drained => ?_
  have member := mem_slots_of_atWork engaged.working
  rw [slots_eq_nil_of_isDrained drained] at member
  cases member

/-- The unit is stepped, and goes through a whole cycle. -/
theorem Engaged.stepped_eq (engaged : u.Engaged group cycle w ex) (isa : ι) (memory : μ) :
    ∃ progress, u.stepped cycle isa memory =
      .ok (progress, Bench.after u.order cycle group { unit := u, isa, memory }) := by
  have through : Bench.cycled u.order cycle group { unit := u, isa, memory } =
      Bench.after u.order cycle group { unit := u, isa, memory } := by
    unfold Bench.cycled
    simp only [engaged.isDrained_eq, Bool.false_eq_true, if_false]
  have stepped := engaged.sound.stepped_eq engaged.held cycle isa memory
  rw [through] at stepped
  exact ⟨_, stepped⟩

/-- As long as the slot is not through, it stays where it is, and nothing is taken up beside it. -/
theorem Engaged.next (engaged : u.Engaged group cycle w ex)
    (stays : (ex.advance a.ready).isOver cycle = false) :
    (u.next cycle a).Engaged group (cycle + 1) w (ex.advance a.ready) ∧
      (u.next cycle a).taken .execute = none := by
  have executing : (u.next cycle a).executing = some (ex.advance a.ready) := by
    simp [ComputeUnit.next, worked, engaged.working, Option.filter, stays]
  have untaken : (u.next cycle a).taken .execute = none := by
    simp [taken, plan_execute, executing]
  refine ⟨⟨engaged.sound.next cycle a, engaged.held, ?_, ?_⟩, untaken⟩
  · have wavefront := engaged.wavefront
    simp only [wavefront?, getElem?_next, Option.map_map, Execution.advance_slot] at wavefront ⊢
    simpa only [Function.comp_def, nextResident_wavefront] using wavefront
  · rw [atWork, untaken]
    exact executing

/-- What the lanes show after a cycle. -/
theorem Engaged.nextLanes_eq (engaged : u.Engaged group cycle w ex) :
    u.nextLanes cycle =
      if ex.hasTurn then
        Lane.issueAll u.lanes (w.subwavefront ex.turn u.lanes.length) fun item =>
          { wavefront := w.id, item := w.globalId item
            kind := (ex.slot.instruction.map (·.kind)).getD .alu, cycle }
      else u.lanes.map Lane.idle := by
  simp only [nextLanes, engaged.working, engaged.wavefront]

/-- What the execute stage leaves in the latch behind it. Whatever was there before is gone. -/
theorem Engaged.current_next (engaged : u.Engaged group cycle w ex) :
    (u.next cycle a).latches.execute.current =
      if (ex.advance a.ready).isOver cycle then some { ex.slot with producedAt := cycle } else none := by
  have emptied : (if (u.taken .write).isSome then none else u.latches.execute.current) = none := by
    rw [taken_write]
    cases u.latches.execute.current <;> rfl
  show (u.given cycle a .execute).or _ = _
  rw [show (if (u.taken Stage.execute.reader).isSome then none
    else (u.latches.get .execute).current) = none from emptied, Option.or_none]
  cases ended : (ex.advance a.ready).isOver cycle <;>
    simp [given, worked, engaged.working, Option.filter, ended]

/-! ## What a step asks and reports -/

/-- The instruction model as the execute stage finds it in a step. -/
def modelAt (u : ComputeUnit) (cycle : Nat) (isa : ι) : ι :=
  Bench.isaBefore u cycle isa u.order.stages .execute

/-- The request that the execute stage makes in a step, if it makes one. -/
def requestAt (u : ComputeUnit) (cycle : Nat) (isa : ι) : Option MemoryRequest :=
  (Bench.executeCall u cycle (u.modelAt cycle isa)).1

/-- What memory answers to the request of a step. -/
def answerAt (u : ComputeUnit) (cycle : Nat) (isa : ι) (memory : μ) : Option Nat :=
  (Bench.memoryCall memory cycle (u.requestAt cycle isa)).1

omit [MemoryService μ] in
/-- A request is what the instruction model makes of the items of a turn. -/
theorem Engaged.requestAt_eq (engaged : u.Engaged group cycle w ex) (isa : ι) :
    u.requestAt cycle isa =
      if ex.hasTurn then ex.slot.instruction.bind fun inst =>
        (InstructionModel.execute (u.modelAt cycle isa) w inst
          (w.subwavefront ex.turn u.lanes.length)).1
      else none := by
  unfold requestAt Bench.executeCall
  simp only [engaged.working, engaged.wavefront]
  cases ex.hasTurn <;> cases ex.slot.instruction <;> rfl

theorem stage_of_mem_stageEvents {stage : Stage} {e : TraceEvent}
    (told : e ∈ u.stageEvents cycle group a stage) : e.stage = some stage := by
  simp only [stageEvents, List.mem_append, List.mem_map, List.mem_ite_nil_right] at told
  rcases told with ((⟨slot, -, rfl⟩ | ⟨-, ex, -, rfl⟩) | ⟨slot, -, rfl⟩) | ⟨-, slot, -, rfl⟩ <;> rfl

/-- What a cycle reports of one stage is what that stage reports. -/
theorem filter_stageEvents (order : StageOrder) (stage : Stage) :
    (order.stages.flatMap (u.stageEvents cycle group a)).filter (·.stage == some stage) =
      u.stageEvents cycle group a stage := by
  have here : (u.stageEvents cycle group a stage).filter (·.stage == some stage) =
      u.stageEvents cycle group a stage := by
    refine List.filter_eq_self.mpr fun e told => ?_
    rw [stage_of_mem_stageEvents told, beq_self_eq_true]
  rw [List.filter_flatMap]
  refine (order.flatMap_stages fun other differs => ?_).trans here
  refine List.filter_eq_nil_iff.mpr fun e told same => ?_
  rw [stage_of_mem_stageEvents told, beq_iff_eq, Option.some.injEq] at same
  exact differs same

/-! ## Steps in consecutive cycles -/

/-- Whatever is asked of a unit, it stays sound, and keeps its lanes. -/
theorem Sound.afterCall (sound : u.Sound) (call : Call ι μ) :
    (u.afterCall call).Sound ∧ (u.afterCall call).lanes.length = u.lanes.length := by
  cases call with
  | assign group wavefronts =>
      simp only [ComputeUnit.afterCall]
      split
      next assigned given =>
        refine ⟨sound.assign given, ?_⟩
        unfold ComputeUnit.assign at given
        split at given <;> cases given
        rfl
      next => exact ⟨sound, rfl⟩
  | step cycle isa memory =>
      simp only [ComputeUnit.afterCall]
      rcases held : u.group with _ | group
      · rw [stepped_of_free held]
        exact ⟨sound, rfl⟩
      · rw [sound.stepped_eq held]
        dsimp only [Bench.cycled]
        split
        · exact ⟨sound, rfl⟩
        · exact ⟨sound.next .., u.nextLanes_length _⟩
  | release =>
      refine ⟨sound.release, ?_⟩
      rcases u.release_snd with same | ⟨-, relieved⟩
      · exact congrArg (·.lanes.length) same
      · show u.release.2.lanes.length = _
        rw [relieved]
        simp [idleLanes]

theorem Sound.afterCalls (sound : u.Sound) (calls : List (Call ι μ)) :
    (u.afterCalls calls).Sound ∧ (u.afterCalls calls).lanes.length = u.lanes.length := by
  induction calls generalizing u with
  | nil => exact ⟨sound, rfl⟩
  | cons call rest ih =>
      obtain ⟨first, row⟩ := sound.afterCall call
      obtain ⟨last, rows⟩ := ih first
      exact ⟨last, rows.trans row⟩

/-- The unit after `n` steps, from `cycle` on. Each of them finds the instruction model and the memory
in a state of its own, since other units ask them as well. -/
def afterSteps (u : ComputeUnit) (cycle : Nat) (isa : Nat → ι) (memory : Nat → μ) :
    Nat → ComputeUnit
  | 0 => u
  | n + 1 => (u.afterSteps cycle isa memory n).afterCall (.step (cycle + n) (isa n) (memory n))

/-- The unit `k` steps after it took up a slot, as long as the slot has not left: it works on that
slot, and has taken up no other. -/
theorem Engaged.afterSteps {turns : Nat} (positive : 0 < turns)
    (taken : u.taken .execute = some slot) (isa : Nat → ι) (memory : Nat → μ) :
    let unit := u.afterSteps cycle isa memory
    let answer := fun k => (unit k).answerAt (cycle + k) (isa k) (memory k)
    u.Engaged group cycle w (.after slot turns cycle answer 0) →
    ∀ k, cycle + k ≤ max (cycle + turns - 1) (latest cycle answer turns) →
      (unit k).Engaged group (cycle + k) w (.after slot turns cycle answer k) ∧
        (unit k).id = u.id ∧ (unit k).lanes.length = u.lanes.length ∧
        (unit k).taken .execute = if k = 0 then some slot else none := by
  intro unit answer engaged
  obtain ⟨last, ends⟩ : ∃ last, last = max (cycle + turns - 1) (latest cycle answer turns) :=
    ⟨_, rfl⟩
  rw [← ends]
  intro k within
  induction k with
  | zero => exact ⟨engaged, rfl, rfl, taken⟩
  | succ k ih =>
      obtain ⟨before, id, row, -⟩ := ih (by omega)
      obtain ⟨progress, stepped⟩ := before.stepped_eq (isa k) (memory k)
      let a := Bench.answersIn (unit k).order (cycle + k)
        { unit := unit k, isa := isa k, memory := memory k }
      have next : unit (k + 1) = (unit k).next (cycle + k) a := by
        show (unit k).afterCall (.step (cycle + k) (isa k) (memory k)) = _
        rw [afterCall, stepped]
        rfl
      have advanced : (Execution.after slot turns cycle answer k).advance a.ready =
          .after slot turns cycle answer (k + 1) := Execution.advance_after slot
      have stays : ((Execution.after slot turns cycle answer k).advance a.ready).isOver
          (cycle + k) = false := by
        rw [advanced, Execution.isOver_after slot positive, ← ends]
        exact decide_eq_false (by omega)
      obtain ⟨after, untaken⟩ := before.next stays
      rw [next, if_neg (Nat.succ_ne_zero k)]
      rw [advanced] at after
      exact ⟨after, id, ((unit k).nextLanes_length _).trans row, untaken⟩

/-! ## The stay of a slot -/

/-- A step of a unit that took up a slot in the cycle `start`, `k` cycles ago. -/
theorem Engaged.stay {start turns k last : Nat} {answer : Nat → Option Nat}
    (engaged : u.Engaged group (start + k) w (.after slot turns start answer k))
    (takes : u.taken .execute = if k = 0 then some slot else none) (positive : 0 < turns)
    (ends : last = max (start + turns - 1) (latest start answer turns)) (within : start + k ≤ last)
    (isa : ι) (memory : μ) (asked : answer k = u.answerAt (start + k) isa memory) :
    let subject := u.subject group slot.wavefront
    ∃ progress b, u.stepped (start + k) isa memory = .ok (progress, b) ∧
      b.events.filter (·.stage == some .execute) =
        (if k = 0 then [subject.consumes start .execute slot.producedAt] else []) ++
        (if (answer k).isSome then [subject.event (start + k) .execute .memoryIssue] else []) ++
        (if start + k = last then [subject.event last .execute .produce] else []) ∧
      b.unit.lanes =
        (if k < turns then
          Lane.issueAll u.lanes (w.subwavefront k u.lanes.length) fun item =>
            { wavefront := w.id, item := w.globalId item
              kind := (slot.instruction.map (·.kind)).getD .alu, cycle := start + k }
        else u.lanes.map Lane.idle) ∧
      u.requestAt (start + k) isa =
        (if k < turns then slot.instruction.bind fun inst =>
          (InstructionModel.execute (u.modelAt (start + k) isa) w inst
            (w.subwavefront k u.lanes.length)).1
        else none) ∧
      b.unit.latches.execute.current =
        (if start + k = last then some { slot with producedAt := last } else none) ∧
      u.plan.canEmit = true := by
  intro subject
  obtain ⟨progress, stepped⟩ := engaged.stepped_eq isa memory
  let a := Bench.answersIn u.order (start + k) { unit := u, isa, memory }
  have answered : a.ready = answer k := asked.symm
  have leaves : ((Execution.after slot turns start answer k).advance (answer k)).isOver (start + k) =
      decide (start + k = last) := by
    rw [Execution.advance_after, Execution.isOver_after slot positive, ← ends]
    exact decide_eq_decide.mpr ⟨fun late => Nat.le_antisymm within late, fun same => same.ge⟩
  refine ⟨progress, _, stepped, ?_, ?_, ?_, ?_, canEmit_plan u⟩
  · show ([] ++ u.order.stages.flatMap (u.stageEvents (start + k) group a)).filter _ = _
    rw [List.nil_append, filter_stageEvents, stageEvents_execute engaged.working, takes]
    simp only [answered, leaves, decide_eq_true_eq]
    congr 1
    · congr 1
      by_cases first : k = 0
      · subst first
        rfl
      · simp [first]
    · by_cases ended : start + k = last
      · simp only [ended, if_true]
        rfl
      · simp only [ended, if_false]
  · show u.nextLanes (start + k) = _
    rw [engaged.nextLanes_eq, Execution.hasTurn_after]
    by_cases more : k < turns
    · simp only [more, decide_true, if_true, Execution.turn_after slot more]
      rfl
    · simp only [more, decide_false, Bool.false_eq_true, if_false]
  · rw [engaged.requestAt_eq, Execution.hasTurn_after]
    by_cases more : k < turns
    · simp only [more, decide_true, if_true, Execution.turn_after slot more]
      rfl
    · simp only [more, decide_false, Bool.false_eq_true, if_false]
  · show (u.next (start + k) a).latches.execute.current = _
    rw [engaged.current_next]
    simp only [answered, leaves, decide_eq_true_eq]
    by_cases ended : start + k = last
    · simp only [ended, if_true]
      rfl
    · simp only [ended, if_false]

/-- Whatever has been asked of a new unit whose number of lanes 32 bits can hold, a slot that it then
takes up for execution in the cycle `cycle` stays until `last`. These are as many cycles as its
wavefront has sub-wavefronts, or more when the latest answer of memory is later than that. In the
cycles from `cycle` to `last` no step is refused, and nothing but this slot is taken up. In each of
the first cycles the lanes process one sub-wavefront, and the request for it is made; afterwards they
idle. The slot is left in the latch behind the stage in the cycle `last` and not before, and that
latch is never in the way. -/
theorem execute_residency (id deviceId : Nat) {lanes : Nat} (width : laneWord (max lanes 1) ≠ 0)
    (order : StageOrder) (calls : List (Call ι μ)) (cycle : Nat) (isa : Nat → ι) (memory : Nat → μ)
    {slot : Slot} :
    let start := afterCalls { ComputeUnit.create id deviceId lanes with order } calls
    let unit := start.afterSteps cycle isa memory
    let answer := fun k => (unit k).answerAt (cycle + k) (isa k) (memory k)
    start.taken .execute = some slot →
    ∃ (w : Wavefront) (turns group : Nat), start.wavefront? slot = some w ∧
      w.subwavefrontCount? lanes = some turns ∧ start.group = some group ∧
      let last := max (cycle + turns - 1) (latest cycle answer turns)
      let subject := start.subject group slot.wavefront
      ∀ k, cycle + k ≤ last → ∃ progress b,
        (unit k).stepped (cycle + k) (isa k) (memory k) = .ok (progress, b) ∧
        b.unit = unit (k + 1) ∧
        b.events.filter (·.stage == some .execute) =
          (if k = 0 then [subject.consumes cycle .execute slot.producedAt] else []) ++
          (if (answer k).isSome then [subject.event (cycle + k) .execute .memoryIssue] else []) ++
          (if cycle + k = last then [subject.event last .execute .produce] else []) ∧
        b.unit.lanes =
          (if k < turns then
            Lane.issueAll (unit k).lanes (w.subwavefront k lanes) fun item =>
              { wavefront := w.id, item := w.globalId item
                kind := (slot.instruction.map (·.kind)).getD .alu, cycle := cycle + k }
          else (unit k).lanes.map Lane.idle) ∧
        (unit k).requestAt (cycle + k) (isa k) =
          (if k < turns then slot.instruction.bind fun inst =>
            (InstructionModel.execute ((unit k).modelAt (cycle + k) (isa k)) w inst
              (w.subwavefront k lanes)).1
          else none) ∧
        b.unit.latches.execute.current =
          (if cycle + k = last then some { slot with producedAt := last } else none) ∧
        (unit k).plan.canEmit = true := by
  intro start unit answer taken
  have new : ({ ComputeUnit.create id deviceId lanes with order } : ComputeUnit).Sound :=
    (Sound.create width).withOrder order
  obtain ⟨sound, kept⟩ := new.afterCalls calls
  have kept : start.lanes.length = lanes := kept.trans (by simp [ComputeUnit.create])
  obtain ⟨w, turns, group, counted, positive, begins⟩ := sound.engaged taken cycle
  rw [show (afterCalls _ calls).lanes.length = lanes from kept] at counted
  have first := begins answer
  refine ⟨w, turns, group, first.wavefront, counted, first.held, ?_⟩
  intro last subject k within
  obtain ⟨engaged, named, row, takes⟩ :=
    Engaged.afterSteps positive taken isa memory first k within
  have same : (unit k).subject group slot.wavefront = subject := by
    unfold ComputeUnit.subject
    exact congrArg (Subject.mk · group slot.wavefront) named
  have row : (unit k).lanes.length = lanes := row.trans kept
  obtain ⟨progress, b, stepped, shows⟩ :=
    Engaged.stay engaged takes positive rfl within (isa k) (memory k) rfl
  rw [same, row] at shows
  refine ⟨progress, b, stepped, ?_, shows⟩
  show _ = (unit k).afterCall (.step (cycle + k) (isa k) (memory k))
  rw [afterCall, stepped]

/-- A load of two sub-wavefronts that is taken up in cycle 5, with a latency of 3: the second request
is made in cycle 6, and so the slot is handed on in cycle 9. -/
theorem execute_residency_of_a_load :
    let calls : List (Call SyntheticProgram FixedLatency) :=
      .assign 5 [{ id := 7, items := ⟨0, 4⟩ }] ::
        [1, 2, 3, 4].map fun cycle => .step cycle (.ofKinds [.load]) { latency := 3 }
    let start := afterCalls { ComputeUnit.create 3 0 2 with order := .forward } calls
    let unit := start.afterSteps 5 (fun _ => SyntheticProgram.ofKinds [.load])
      fun _ => ({ latency := 3 } : FixedLatency)
    ∃ slot, start.taken .execute = some slot ∧ ∀ k, k ≤ 4 →
      (unit (k + 1)).latches.execute.current =
        if 5 + k = 9 then some { slot with producedAt := 9 } else none := by
  intro calls start unit
  obtain ⟨slot, taken⟩ : ∃ slot, start.taken .execute = some slot :=
    Option.isSome_iff_exists.mp (by decide +kernel)
  obtain ⟨w, turns, group, wavefront, counted, -, stays⟩ := execute_residency 3 0
    (show laneWord (max 2 1) ≠ 0 by decide) .forward calls 5 (fun _ => .ofKinds [.load])
    (fun _ => { latency := 3 }) taken
  have two : ((start.taken .execute).bind start.wavefront?).bind
      (·.subwavefrontCount? 2) = some 2 := by decide +kernel
  have wavefront : start.wavefront? slot = some w := wavefront
  rw [taken, Option.bind_some, wavefront, Option.bind_some, counted] at two
  cases two
  have last : max (5 + 2 - 1) (latest 5 (fun k => (unit k).answerAt (5 + k)
      (SyntheticProgram.ofKinds [.load]) ({ latency := 3 } : FixedLatency)) 2) = 9 := by
    decide +kernel
  refine ⟨slot, taken, fun k within => ?_⟩
  have inside : 5 + k ≤ max (5 + 2 - 1) (latest 5 (fun k => (unit k).answerAt (5 + k)
      (SyntheticProgram.ofKinds [.load]) ({ latency := 3 } : FixedLatency)) 2) := by
    rw [last]
    omega
  obtain ⟨_, b, -, next, -, -, -, current, -⟩ := stays k inside
  rw [next, last] at current
  exact current

end ComputeUnit

end Accelerator
