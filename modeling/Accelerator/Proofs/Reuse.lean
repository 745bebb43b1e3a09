import Accelerator.Proofs.Device.Visits
import Accelerator.Proofs.Pipeline.Calls

/-!
# A unit that has worked before

A unit runs one work-group after the other. When it is given the next one, its pipeline is empty, its
lanes idle, and nothing else is left of those before but what it has counted: it is a new unit that
has *aged* (`ComputeUnit.Descends.assigned`). Age plays no part in a cycle, so that such a unit and a
new one are observed to do the same in every cycle (`ComputeUnit.watch_aged`).

A release clears less than it seems to: latches and the execute stage are empty because nothing else
is possible in a unit that is sound and holds no work-group.
-/

namespace Accelerator

/-! ## Age -/

/-- The sum of what was counted at two times. -/
def UnitStats.plus (now before : UnitStats) : UnitStats where
  busyCycles := now.busyCycles + before.busyCycles
  instructions := now.instructions + before.instructions
  requests := now.requests + before.requests
  groups := now.groups + before.groups

/-- What a unit and its lanes have counted. -/
structure Past where
  stats : UnitStats
  /-- How many work-items each lane has processed. -/
  ops : Nat → Nat

/-- A row of lanes that had processed something before it was as it is. -/
def Past.onLanes (past : Past) (lanes : List Lane) : List Lane :=
  lanes.mapIdx fun i lane => { lane with ops := lane.ops + past.ops i }

@[simp] theorem Past.length_onLanes (past : Past) (lanes : List Lane) :
    (past.onLanes lanes).length = lanes.length := List.length_mapIdx

theorem Past.map_idle_onLanes (past : Past) (lanes : List Lane) :
    (past.onLanes lanes).map Lane.idle = past.onLanes (lanes.map Lane.idle) := by
  refine List.ext_getElem (by simp) fun i _ _ => ?_
  simp [onLanes, Lane.idle]

theorem Past.issueAll_onLanes (past : Past) (lanes : List Lane) (items : Span)
    (work : Nat → LaneWork) :
    Lane.issueAll (past.onLanes lanes) items work = past.onLanes (Lane.issueAll lanes items work) := by
  refine List.ext_getElem (by simp [Lane.issueAll]) fun i _ _ => ?_
  by_cases inside : items.start + i < items.stop
  · simp [Lane.issueAll, onLanes, Lane.issue, inside, Nat.add_right_comm]
  · simp [Lane.issueAll, onLanes, Lane.idle, inside]

namespace ComputeUnit

/-- What a unit has counted up to now. -/
def past (u : ComputeUnit) : Past where
  stats := u.stats
  ops i := (u.lanes[i]?.map (·.ops)).getD 0

/-- A unit that had counted something before it was as it is. -/
def aged (u : ComputeUnit) (past : Past) : ComputeUnit :=
  { u with lanes := past.onLanes u.lanes, stats := u.stats.plus past.stats }

/-! ## Age plays no part in a cycle -/

section Aged

variable (u : ComputeUnit) (past : Past) (cycle group : Nat) (a : Answers) (stage : Stage)

@[simp] theorem length_lanes_aged : (u.aged past).lanes.length = u.lanes.length :=
  past.length_onLanes u.lanes

@[simp] theorem wavefront?_aged (slot : Slot) :
    (u.aged past).wavefront? slot = u.wavefront? slot := rfl

theorem issuableFrom_aged (n index : Nat) :
    (u.aged past).issuableFrom n index = u.issuableFrom n index := by
  induction n generalizing index with
  | zero => rfl
  | succ n ih =>
      rw [issuableFrom, issuableFrom, ih]
      rfl

@[simp] theorem plan_aged : (u.aged past).plan = u.plan := by
  have issuable : (u.aged past).nextIssuable = u.nextIssuable := u.issuableFrom_aged past _ _
  simp only [plan, issuable]
  rfl

@[simp] theorem taken_aged : (u.aged past).taken stage = u.taken stage := by
  cases stage <;> simp only [taken, plan_aged] <;> rfl

@[simp] theorem atWork_aged : (u.aged past).atWork cycle = u.atWork cycle := by
  simp only [atWork, taken_aged, length_lanes_aged, wavefront?_aged]
  rfl

@[simp] theorem issued_aged : (u.aged past).issued cycle = u.issued cycle := by
  simp only [issued, plan_aged]
  rfl

@[simp] theorem given_aged : (u.aged past).given cycle a stage = u.given cycle a stage := by
  cases stage <;> simp only [given, issued_aged, taken_aged, worked, atWork_aged]

theorem nextLanes_aged :
    (u.aged past).nextLanes cycle = past.onLanes (u.nextLanes cycle) := by
  have idle : (u.aged past).lanes.map Lane.idle = past.onLanes (u.lanes.map Lane.idle) :=
    past.map_idle_onLanes u.lanes
  simp only [nextLanes, atWork_aged, length_lanes_aged, wavefront?_aged]
  rcases u.atWork cycle with _ | ex
  · exact idle
  · dsimp only
    rcases u.wavefront? ex.slot with _ | w
    · exact idle
    · dsimp only
      split
      · exact past.issueAll_onLanes u.lanes _ _
      · exact idle

theorem next_aged : (u.aged past).next cycle a = (u.next cycle a).aged past := by
  have latch : (u.aged past).nextLatch cycle a = u.nextLatch cycle a := by
    funext stage
    simp only [nextLatch, given_aged, taken_aged]
    rfl
  have resident : (u.aged past).nextResident cycle a = u.nextResident cycle a := by
    funext index r
    simp only [nextResident, issued_aged, taken_aged]
  have cursor : (u.aged past).nextCursor = u.nextCursor := by
    simp only [nextCursor, plan_aged]
    rfl
  simp only [next, latch, resident, cursor, nextLanes_aged, worked, atWork_aged, taken_aged]
  simp only [aged, UnitStats.plus, Nat.add_right_comm]

theorem stageEvents_aged :
    (u.aged past).stageEvents cycle group a = u.stageEvents cycle group a := by
  funext stage
  simp only [stageEvents, given_aged, taken_aged, atWork_aged]
  rfl

end Aged

end ComputeUnit

namespace Bench

variable {ι μ : Type} [InstructionModel ι] [MemoryService μ]

/-- A bench with a unit that had counted something before. -/
def aged (b : Bench ι μ) (past : Past) : Bench ι μ := { b with unit := b.unit.aged past }

theorem executeCall_aged (u : ComputeUnit) (past : Past) (cycle : Nat) (isa : ι) :
    executeCall (u.aged past) cycle isa = executeCall u cycle isa := by
  simp only [executeCall, ComputeUnit.atWork_aged, ComputeUnit.wavefront?_aged,
    ComputeUnit.length_lanes_aged]

theorem isaAfter_aged (u : ComputeUnit) (past : Past) (cycle : Nat) (isa : ι) (stage : Stage) :
    isaAfter (u.aged past) cycle isa stage = isaAfter u cycle isa stage := by
  cases stage <;>
    simp only [isaAfter, fetchCall, decodeCall, executeCall_aged, writeCall,
      ComputeUnit.taken_aged, ComputeUnit.wavefront?_aged]

theorem isaBefore_aged (u : ComputeUnit) (past : Past) (cycle : Nat) (isa : ι)
    (stages : List Stage) :
    isaBefore (u.aged past) cycle isa stages = isaBefore u cycle isa stages := by
  funext stage
  induction stages generalizing isa with
  | nil => rfl
  | cons first rest ih => simp only [isaBefore, isaAfter_aged, ih]

theorem answers_aged (u : ComputeUnit) (past : Past) (memory : μ) (cycle : Nat)
    (isaAt : Stage → ι) :
    answers (u.aged past) memory cycle isaAt = answers u memory cycle isaAt := by
  simp only [answers, fetchCall, decodeCall, executeCall_aged, writeCall, ComputeUnit.taken_aged,
    ComputeUnit.wavefront?_aged]

theorem after_aged (b : Bench ι μ) (past : Past) (order : StageOrder) (cycle group : Nat) :
    (b.aged past).after order cycle group = (b.after order cycle group).aged past := by
  have isa : isaAfter (ι := ι) (b.unit.aged past) cycle = isaAfter b.unit cycle := by
    funext isa stage
    exact isaAfter_aged ..
  simp only [after, aged, answersIn, answers_aged, isaBefore_aged, executeCall_aged,
    ComputeUnit.next_aged, ComputeUnit.stageEvents_aged, isa]

theorem cycled_aged (b : Bench ι μ) (past : Past) (order : StageOrder) (cycle group : Nat) :
    (b.aged past).cycled order cycle group = (b.cycled order cycle group).aged past := by
  unfold cycled
  rw [after_aged]
  exact (apply_ite (fun b : Bench ι μ => b.aged past) ..).symm

end Bench

namespace ComputeUnit

/-! ## A unit that holds nothing -/

variable {u origin : ComputeUnit}

/-- What a lane is called stays with it. -/
theorem map_nextLanes {β : Type} {f : Lane → β} (idle : ∀ lane, f lane.idle = f lane)
    (issue : ∀ (lane : Lane) work, f (lane.issue work) = f lane) (u : ComputeUnit) (cycle : Nat) :
    (u.nextLanes cycle).map f = u.lanes.map f := by
  have idles : (u.lanes.map Lane.idle).map f = u.lanes.map f := by
    rw [List.map_map]
    exact List.map_congr_left fun lane _ => idle lane
  have issues : ∀ items work, (Lane.issueAll u.lanes items work).map f = u.lanes.map f := by
    intro items work
    refine List.ext_getElem (by simp [Lane.issueAll]) fun i _ _ => ?_
    by_cases inside : items.start + i < items.stop <;>
      simp [Lane.issueAll, inside, idle, issue]
  unfold nextLanes
  split
  · exact idles
  · split
    · exact idles
    · split
      · exact issues _ _
      · exact idles

/-- A unit that came about from another one by calls. -/
structure Descends (u origin : ComputeUnit) : Prop where
  sound : u.Sound
  id : u.id = origin.id
  deviceId : u.deviceId = origin.deviceId
  order : u.order = origin.order
  lanes : u.lanes.map (fun lane => (lane.id, lane.unit)) =
    origin.lanes.map fun lane => (lane.id, lane.unit)
  /-- Without a work-group every lane idles. -/
  idle : u.group = none → ∀ lane ∈ u.lanes, lane.current = none

theorem Descends.next (descends : u.Descends origin) {group : Nat} (held : u.group = some group)
    (cycle : Nat) (a : Answers) : (u.next cycle a).Descends origin where
  sound := descends.sound.next cycle a
  id := descends.id
  deviceId := descends.deviceId
  order := descends.order
  lanes := (map_nextLanes (fun _ => rfl) (fun _ _ => rfl) u cycle).trans descends.lanes
  idle free := by
    have free : u.group = none := free
    rw [held] at free
    cases free

theorem Descends.assign (descends : u.Descends origin) {group : Nat} {wavefronts : List Wavefront}
    {assigned : ComputeUnit} (given : u.assign group wavefronts = .ok assigned) :
    assigned.Descends origin := by
  have sound := descends.sound.assign given
  unfold ComputeUnit.assign at given
  split at given
  next => cases given
  next =>
    cases given
    exact ⟨sound, descends.id, descends.deviceId, descends.order, descends.lanes,
      fun free => nomatch free⟩

theorem Descends.release (descends : u.Descends origin) : u.release.2.Descends origin := by
  have sound := descends.sound.release
  rcases u.release_snd with same | ⟨-, relieved⟩
  · rw [same]
    exact descends
  · rw [relieved] at sound ⊢
    refine ⟨sound, descends.id, descends.deviceId, descends.order, ?_, fun _ lane member => ?_⟩
    · refine Eq.trans ?_ descends.lanes
      simp [idleLanes, Lane.idle]
    · obtain ⟨before, -, rfl⟩ := List.mem_map.mp member
      rfl

section Calls

variable {ι μ : Type} [InstructionModel ι] [MemoryService μ]

theorem Descends.afterCall (descends : u.Descends origin) (call : Call ι μ) :
    (u.afterCall call).Descends origin := by
  cases call with
  | assign group wavefronts =>
      simp only [ComputeUnit.afterCall]
      split
      next assigned given => exact descends.assign given
      next => exact descends
  | step cycle isa memory =>
      simp only [ComputeUnit.afterCall]
      rcases held : u.group with _ | group
      · rw [stepped_of_free held]
        exact descends
      · have stepped : u.stepped cycle isa memory = _ :=
          Bench.stepIn_eq descends.sound rfl held u.order cycle
        rw [stepped]
        show (Bench.cycled u.order cycle group { unit := u, isa, memory }).unit.Descends origin
        unfold Bench.cycled
        split
        · exact descends
        · exact descends.next held cycle _
  | release => exact descends.release

theorem Descends.afterCalls (descends : u.Descends origin) (calls : List (Call ι μ)) :
    (u.afterCalls calls).Descends origin := by
  induction calls generalizing u with
  | nil => exact descends
  | cons call rest ih => exact ih (descends.afterCall call)

end Calls

/-- A new unit whose stages are evaluated in a given order. -/
theorem Descends.create (id deviceId lanes : Nat) (order : StageOrder)
    (width : laneWord (max lanes 1) ≠ 0) :
    Descends { ComputeUnit.create id deviceId lanes with order }
      { ComputeUnit.create id deviceId lanes with order } where
  sound := (Sound.create width).withOrder order
  id := rfl
  deviceId := rfl
  order := rfl
  lanes := rfl
  idle _ lane member := by
    obtain ⟨i, -, rfl⟩ := List.mem_map.mp member
    rfl

/-- In a unit that holds nothing, neither a latch nor the execute stage holds anything. -/
theorem Sound.empty_of_free (sound : u.Sound) (free : u.group = none) :
    u.latches = {} ∧ u.executing = none := by
  have empty : u.slots = [] := sound.slots_eq_nil free
  simp only [slots, List.append_eq_nil_iff, Option.toList_eq_nil_iff, Option.map_eq_none_iff]
    at empty
  obtain ⟨⟨⟨⟨⟨schedule, fetch⟩, decode⟩, read⟩, executing⟩, execute⟩ := empty
  have clear : ∀ stage, (u.latches.get stage).current = none → u.latches.get stage = {} := by
    intro stage current
    have next := sound.settled stage
    rcases latch : u.latches.get stage with ⟨current', next'⟩
    rw [latch] at current next
    rw [show current' = none from current, show next' = none from next]
  refine ⟨?_, executing⟩
  rcases latches : u.latches with ⟨_, _, _, _, _⟩
  rw [latches] at clear schedule fetch decode read execute
  rw [Latches.mk.injEq]
  exact ⟨clear .schedule schedule, clear .fetch fetch, clear .decode decode, clear .read read,
    clear .execute execute⟩

/-- The lanes of a unit that holds nothing are new ones that have aged. -/
theorem Descends.lanes_eq (descends : u.Descends origin) (free : u.group = none)
    (unused : ∀ lane ∈ origin.lanes, lane.current = none ∧ lane.ops = 0) :
    u.lanes = u.past.onLanes origin.lanes := by
  have length : u.lanes.length = origin.lanes.length := by
    simpa using congrArg List.length descends.lanes
  refine List.ext_getElem (by simp [length]) fun i here there => ?_
  have bound : i < origin.lanes.length := length ▸ here
  have names : (u.lanes[i].id, u.lanes[i].unit) = (origin.lanes[i].id, origin.lanes[i].unit) := by
    have both := congrArg (·[i]?) descends.lanes
    simpa [here, bound] using both
  obtain ⟨id, unit⟩ := Prod.mk.inj names
  obtain ⟨current, ops⟩ := unused _ (List.getElem_mem bound)
  have idles := descends.idle free _ (List.getElem_mem here)
  simp only [Past.onLanes, List.getElem_mapIdx, past, List.getElem?_eq_getElem here,
    Option.map_some, Option.getD_some, ops, Nat.zero_add, current, ← id, ← unit, ← idles]

/-- A unit that holds nothing is, once it is given a work-group, a new one that has aged. -/
theorem Descends.assigned {id deviceId lanes : Nat} {order : StageOrder}
    (descends : u.Descends { ComputeUnit.create id deviceId lanes with order })
    (free : u.group = none) (group : Nat) (wavefronts : List Wavefront) :
    ∃ assigned, ComputeUnit.assign { ComputeUnit.create id deviceId lanes with order } group
        wavefronts = .ok assigned ∧
      u.assign group wavefronts = .ok (assigned.aged u.past) := by
  obtain ⟨latches, executing⟩ := descends.sound.empty_of_free free
  have lanes := descends.lanes_eq free (by
    intro lane member
    obtain ⟨i, -, rfl⟩ := List.mem_map.mp member
    exact ⟨rfl, rfl⟩)
  have stats : u.stats = ({} : UnitStats).plus u.stats := by simp [UnitStats.plus]
  refine ⟨_, rfl, (u.assign_eq free group wavefronts).trans (congrArg Except.ok ?_)⟩
  exact (ComputeUnit.mk.injEq ..).mpr ⟨descends.id, descends.deviceId, lanes, rfl, rfl, rfl, latches,
    executing, descends.order, stats⟩

/-! ## What is observed of a unit -/

section Watching

variable {ι μ : Type} [InstructionModel ι] [MemoryService μ]

/-- What a step shows. -/
structure Sight where
  outcome : Except Error Progress
  events : List TraceEvent
  requests : List MemoryRequest
  /-- What the lanes show after the step. -/
  lanes : List (Option LaneWork)

/-- What memory is asked for in a step. -/
def asks (u : ComputeUnit) (isa : ι) (memory : μ) (cycle : Nat) : List MemoryRequest :=
  match u.stepped cycle isa ({ memory } : Recorder μ) with
  | .ok (_, b) => b.memory.requests
  | .error _ => []

/-- What a step shows, and the unit, the model and the memory after it. A refused one leaves them as
they are. -/
def sight (u : ComputeUnit) (isa : ι) (memory : μ) (cycle : Nat) : Sight × ComputeUnit × ι × μ :=
  match u.stepped cycle isa memory with
  | .ok (progress, b) =>
    ({ outcome := .ok progress, events := b.events, requests := u.asks isa memory cycle
       lanes := b.unit.lanes.map (·.current) }, b.unit, b.isa, b.memory)
  | .error e =>
    ({ outcome := .error e, events := [], requests := u.asks isa memory cycle
       lanes := u.lanes.map (·.current) }, u, isa, memory)

/-- What steps in the given cycles show, and the unit, the model and the memory after them. -/
def watch (u : ComputeUnit) (isa : ι) (memory : μ) : List Nat → List Sight × ComputeUnit × ι × μ
  | [] => ([], u, isa, memory)
  | cycle :: cycles =>
    let (first, u, isa, memory) := u.sight isa memory cycle
    let (rest, after) := u.watch isa memory cycles
    (first :: rest, after)

theorem Sound.aged (sound : u.Sound) (past : Past) : (u.aged past).Sound where
  settled := sound.settled
  width := by
    rw [u.length_lanes_aged past]
    exact sound.width
  distinct := sound.distinct
  carried := sound.carried
  flagged := sound.flagged
  unassigned := sound.unassigned

/-- A step leaves a unit sound, and does not take its work-group. -/
theorem Sound.sight_unit (sound : u.Sound) {group : Nat} (held : u.group = some group) (isa : ι)
    (memory : μ) (cycle : Nat) :
    (u.sight isa memory cycle).2.1.Sound ∧ (u.sight isa memory cycle).2.1.group = some group := by
  unfold sight
  rw [sound.stepped_eq held]
  dsimp only [Bench.cycled]
  split
  · exact ⟨sound, held⟩
  · exact ⟨sound.next .., held⟩

/-- What a lane shows does not depend on what it has processed before. -/
theorem current_aged (u : ComputeUnit) (past : Past) :
    (u.aged past).lanes.map (·.current) = u.lanes.map (·.current) := by
  refine List.ext_getElem (by simp) fun i _ _ => ?_
  simp [aged, Past.onLanes]

/-- The stepped bench of a unit that has aged. -/
theorem Sound.stepped_aged (sound : u.Sound) {group : Nat} (held : u.group = some group)
    (past : Past) (cycle : Nat) (isa : ι) (memory : μ) :
    (u.aged past).stepped cycle isa memory =
      .ok ((Bench.cycled u.order cycle group { unit := u, isa, memory }).progress group,
        (Bench.cycled u.order cycle group { unit := u, isa, memory }).aged past) := by
  have aged : Bench.cycled u.order cycle group { unit := u.aged past, isa, memory } =
      (Bench.cycled u.order cycle group { unit := u, isa, memory }).aged past :=
    Bench.cycled_aged { unit := u, isa, memory } past u.order cycle group
  have stepped := (sound.aged past).stepped_eq held cycle isa memory
  rw [show (u.aged past).order = u.order from rfl, aged] at stepped
  exact stepped

/-- A step shows the same of a unit that has aged. -/
theorem Sound.sight_aged (sound : u.Sound) {group : Nat} (held : u.group = some group)
    (past : Past) (isa : ι) (memory : μ) (cycle : Nat) :
    (u.aged past).sight isa memory cycle =
      let (seen, after, services) := u.sight isa memory cycle
      (seen, after.aged past, services) := by
  have asks : (u.aged past).asks isa memory cycle = u.asks isa memory cycle := by
    unfold ComputeUnit.asks
    rw [sound.stepped_aged held, sound.stepped_eq held]
    rfl
  unfold sight
  rw [sound.stepped_aged held, sound.stepped_eq held, asks]
  simp only [Bench.aged, current_aged]

/-- Steps show the same of a unit that has aged. -/
theorem Sound.watch_aged (sound : u.Sound) {group : Nat} (held : u.group = some group)
    (past : Past) (isa : ι) (memory : μ) (cycles : List Nat) :
    (u.aged past).watch isa memory cycles =
      let (seen, after, services) := u.watch isa memory cycles
      (seen, after.aged past, services) := by
  induction cycles generalizing u isa memory with
  | nil => rfl
  | cons cycle cycles ih =>
      obtain ⟨sound', held'⟩ := sound.sight_unit held isa memory cycle
      simp only [watch, sound.sight_aged held, ih sound' held']

/-! ## A unit that is used again -/

/-- Whatever was asked of a unit, if it holds nothing in the end and is given a work-group, it does
and shows in every step what a new unit does and shows. What it has counted is more by what it had
counted before, and nothing else differs. -/
theorem watch_of_free {ι' μ' : Type} [InstructionModel ι'] [MemoryService μ']
    (id deviceId lanes : Nat) (order : StageOrder) (width : laneWord (max lanes 1) ≠ 0)
    (calls : List (Call ι' μ')) (group : Nat) (wavefronts : List Wavefront) (isa : ι) (memory : μ)
    (cycles : List Nat) :
    let new : ComputeUnit := { ComputeUnit.create id deviceId lanes with order }
    let used := new.afterCalls calls
    used.group = none →
    ∃ assigned assigned', new.assign group wavefronts = .ok assigned ∧
      used.assign group wavefronts = .ok assigned' ∧
      assigned'.watch isa memory cycles =
        let (seen, after, services) := assigned.watch isa memory cycles
        (seen, after.aged used.past, services) := by
  intro new used free
  have origin : new.Descends new := Descends.create id deviceId lanes order width
  have descends : used.Descends new := origin.afterCalls calls
  obtain ⟨assigned, given, given'⟩ := descends.assigned free group wavefronts
  have sound := origin.sound.assign given
  have held : assigned.group = some group := by
    cases given
    rfl
  exact ⟨assigned, _, given, given', sound.watch_aged held used.past isa memory cycles⟩

/-- A unit of two lanes that has finished a work-group before, and has refused to give it back too
early. -/
theorem watch_of_free_after_a_group :
    let program := SyntheticProgram.ofKinds [.load]
    let memory : FixedLatency := { latency := 3 }
    let calls : List (Call SyntheticProgram FixedLatency) :=
      [.assign 5 [{ id := 7, items := ⟨0, 3⟩ }], .release] ++
        (List.range 20).map (fun cycle => .step cycle program memory) ++ [.release]
    let used := afterCalls (ComputeUnit.create 3 0 2) calls
    used.past.stats.groups = 1 ∧ used.past.ops 0 = 4 ∧
      ∃ assigned assigned' : ComputeUnit,
        (ComputeUnit.create 3 0 2).assign 6 [{ id := 9, items := ⟨0, 2⟩ }] = .ok assigned ∧
        used.assign 6 [{ id := 9, items := ⟨0, 2⟩ }] = .ok assigned' ∧
        (assigned'.watch program memory [30, 31, 32]).1 =
          (assigned.watch program memory [30, 31, 32]).1 := by
  intro program memory calls used
  have counted : used.past.stats.groups = 1 ∧ used.past.ops 0 = 4 := by decide +kernel
  obtain ⟨assigned, assigned', given, given', same⟩ := watch_of_free 3 0 2 .reverse (by decide)
    calls 6 [{ id := 9, items := ⟨0, 2⟩ }] program memory [30, 31, 32]
    (show used.group = none by decide +kernel)
  exact ⟨counted.1, counted.2, assigned, assigned', given, given', congrArg (·.1) same⟩

end Watching

end ComputeUnit

end Accelerator
