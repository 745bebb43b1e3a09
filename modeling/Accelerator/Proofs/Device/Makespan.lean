import Accelerator.Proofs.Device.Batches
import Accelerator.Proofs.Items

/-!
# How long a launch takes

On a memory that always takes as long, a launch takes as many batches as the units need for all
groups, and each batch as many cycles as one group needs on one unit. Which of the two placements a
device has makes no difference to that, nor to anything else that is reported.
-/

namespace Accelerator

/-- The wavefronts of all groups are alike. -/
theorem NdRange.outline_groupWavefronts (size groupSize perGroup group : Nat) :
    (groupWavefronts size groupSize perGroup group).map Wavefront.outline =
      (groupWavefronts size groupSize perGroup 0).map Wavefront.outline := by
  simp only [groupWavefronts, List.map_map, Function.comp_def]
  rfl

namespace Rhythm

open Job TraceEvent

variable {r : Rhythm} {b k left : Nat} {job placed : Job SyntheticProgram FixedLatency Placer}

/-! ## A batch of a run -/

/-- What happens in the cycles that a batch still takes. -/
def cyclesActs (size left : Nat) : List Act := (List.replicate left (cycleActs size)).flatten

/-- What happens in a batch. -/
def batchActs (r : Rhythm) (b : Nat) : List Act :=
  (List.range (r.batchSize b)).map .deal ++ cyclesActs (r.batchSize b) r.steps

/-- As long as a batch is in hand a run goes on, and there is nothing to dispatch. -/
theorem InHand.drive_cycle {next : Job SyntheticProgram FixedLatency Placer}
    (inHand : r.InHand b (r.batchSize b) left job) (some_groups : 0 < r.batchSize b)
    (advanced : Job.advance.outcome job = (.ok (), next)) (room : Nat) :
    (drive (room + 1) none).outcome job = (drive room none).outcome next := by
  have full : job.canDispatch = false :=
    inHand.canDispatch_eq.trans (decide_eq_false (Nat.lt_irrefl _))
  have goes_on : job.device.busy.isEmpty = false := by
    rw [inHand.busy.isEmpty_eq, List.isEmpty_eq_false_iff]
    exact List.ne_nil_of_mem (List.mem_range.mpr some_groups)
  exact drive_succ_outcome (place_of_placed full) goes_on advanced room

/-- Once dispatched, a batch runs to its end. -/
theorem InHand.drive_cycles (inHand : r.InHand b (r.batchSize b) (left + 1) job)
    (some_groups : 0 < r.batchSize b) :
    ∃ next, (∀ room, (drive (room + (left + 1)) none).outcome job = (drive room none).outcome next) ∧
      Performs (cyclesActs (r.batchSize b) (left + 1)) job next ∧ r.Closed b next := by
  induction left generalizing job with
  | zero =>
      obtain ⟨next, advanced, performs, closed⟩ := inHand.advance_last
      exact ⟨next, inHand.drive_cycle some_groups advanced, performs.append (.nil next), closed⟩
  | succ left ih =>
      obtain ⟨between, advanced, first, goes_on⟩ := inHand.advance
      obtain ⟨next, drives, rest, closed⟩ := ih goes_on
      refine ⟨next, fun room => ?_, first.append rest, closed⟩
      rw [← drives room]
      exact inHand.drive_cycle some_groups advanced (room + (left + 1))

/-- A batch takes the cycles that one of its groups takes. -/
theorem InHand.drive_batch (inHand : r.InHand b 0 r.steps job) (some_groups : 0 < r.batchSize b) :
    ∃ next, (∀ room, (drive (room + r.steps) none).outcome job = (drive room none).outcome next) ∧
      Performs (r.batchActs b) job next ∧ r.Closed b next := by
  obtain ⟨placed, done, dealt, all⟩ := inHand.place some_groups
  obtain ⟨next, drives, worked, closed⟩ := all.drive_cycles some_groups
  have full : placed.canDispatch = false :=
    all.canDispatch_eq.trans (decide_eq_false (Nat.lt_irrefl _))
  refine ⟨next, fun room => ?_, dealt.append worked, closed⟩
  have fromPlaced : (drive (room + r.steps) none).outcome placed = (drive room none).outcome next :=
    drives room
  rw [← fromPlaced, drive_outcome done, drive_outcome (place_of_placed full)]

/-! ## All batches -/

/-- How many batches there are. -/
def batches (r : Rhythm) : Nat := ceilDiv r.groups r.units

theorem lt_batches : b < r.batches ↔ b * r.units < r.groups := by
  have positive := r.some_units
  rw [batches, ceilDiv, Nat.lt_iff_add_one_le, Nat.le_div_iff_mul_le positive, Nat.add_mul,
    Nat.one_mul]
  omega

theorem batchSize_pos (inside : b < r.batches) : 0 < r.batchSize b := by
  have begun := lt_batches.mp inside
  have positive := r.some_units
  rw [batchSize]
  omega

/-- Every batch but the last has a group for every unit. -/
theorem batchSize_eq (inside : b + 1 < r.batches) : r.batchSize b = r.units := by
  have more := lt_batches.mp inside
  rw [Nat.add_mul, Nat.one_mul] at more
  rw [batchSize]
  omega

/-- The last batch has all groups that are left. -/
theorem batchSize_last (last : b + 1 = r.batches) : b * r.units + r.batchSize b = r.groups := by
  have begun : b * r.units < r.groups := lt_batches.mp (by omega)
  have all : r.groups ≤ (b + 1) * r.units := Nat.le_of_not_lt (mt lt_batches.mpr (by omega))
  rw [Nat.add_mul, Nat.one_mul] at all
  rw [batchSize]
  omega

/-- What happens in some batches that follow each other. -/
def timetable (r : Rhythm) (b left : Nat) : List Act := (List.range' b left).flatMap r.batchActs

/-- When all groups are done a run is over. -/
theorem Rested.drive_eq (rested : r.Rested r.groups job) (room : Nat) :
    (drive room none).outcome job = finish.outcome job := by
  have ended : job.canDispatch = false := by
    rw [canDispatch, NdRange.hasPending, rested.pending, Nat.sub_self]
    simp
  have idle : job.device.busy.isEmpty = true := by
    rw [rested.busy.isEmpty_eq]
    rfl
  rw [drive_outcome (place_of_placed ended), idle, if_pos rfl]

/-- A run takes one batch after the other, and is over after the last one. -/
theorem InHand.drive (inHand : r.InHand b 0 r.steps job) (remaining : b + (left + 1) = r.batches) :
    ∃ final, (∀ room, (Job.drive (room + (left + 1) * r.steps) none).outcome job =
        finish.outcome final) ∧
      Performs (r.timetable b (left + 1)) job final ∧ r.Rested r.groups final ∧
      final.device.cycle = r.batches * r.steps := by
  induction left generalizing b job with
  | zero =>
      have all : b * r.units + r.batchSize b = r.groups := batchSize_last remaining
      obtain ⟨final, drives, performs, closed⟩ :=
        inHand.drive_batch (batchSize_pos (by omega))
      have rested := closed.rested
      rw [all] at rested
      refine ⟨final, fun room => ?_, performs.append (.nil final), rested, ?_⟩
      · rw [Nat.zero_add, Nat.one_mul, drives, rested.drive_eq]
      · rw [closed.clock, ← remaining]
  | succ left ih =>
      have whole : r.batchSize b = r.units := batchSize_eq (by omega)
      obtain ⟨next, drives, performs, closed⟩ :=
        inHand.drive_batch (batchSize_pos (by omega))
      obtain ⟨final, drives', performs', rested, clock⟩ := ih (closed.whole whole) (by omega)
      refine ⟨final, fun room => ?_, performs.append performs', rested, clock⟩
      rw [Nat.succ_mul, ← Nat.add_assoc, drives, drives']

/-! ## New runs -/

section Fresh

variable {id : Nat} {config : DeviceConfig} {memory : FixedLatency} {policy : PlacementPolicy}
  {device : Device SyntheticProgram FixedLatency Placer} {launch number : Nat}
  {kernelName : String} {globalSize localSize : Dim3} {wavefrontSize : Nat} {nd : NdRange}

/-- On a new device no group of a new launch is in hand. -/
theorem InHand.fresh (built : Device.build id config r.program memory policy.build = .ok device)
    (small : config.wavefrontSize < countBound)
    (made : NdRange.create launch number kernelName globalSize localSize wavefrontSize = .ok nd)
    (order : StageOrder) (latency : memory.latency = r.latency) (lanes : config.streamCores = r.lanes)
    (units : config.computeUnits = r.units) (groups : nd.groupCount = r.groups)
    (duration : ∀ (group : Nat) (wavefronts : List Wavefront),
      nd.wavefrontsOf group = .ok wavefronts →
        (ComputeUnit.opening r.lanes wavefronts).DrainsIn r.program r.latency r.steps) :
    r.InHand 0 0 r.steps (Job.fresh device order .keepAll nd).admitted := by
  have follows : (Job.fresh device order .keepAll nd).Follows r.program config.streamCores :=
    .fresh built small policy.reliable_build made order .keepAll
  rw [lanes] at follows
  obtain ⟨-, rfl⟩ := Device.build_eq_ok built
  obtain ⟨-, -, itemCount, groupSize, -, -, rfl⟩ := NdRange.create_eq_ok made
  have count : itemCount / groupSize = r.groups := by
    rw [← groups]
    simp [NdRange.groupCount, NdRange.cut]
  exact {
    governs := ⟨follows.admitted, latency, ⟨#[], rfl⟩, duration⟩
    clock := by
      show 0 + r.steps = (0 + 1) * r.steps
      omega
    idle := by
      rw [Nat.sub_zero, ← List.range_eq_range', ← units]
      exact UnitSet.lists_full config.computeUnits
    busy := UnitSet.lists_empty config.computeUnits
    held := fun _ member => absurd member List.not_mem_nil
    orderly := Placer.Orderly.build policy r.units
    pending := by
      rw [Nat.zero_mul, Nat.add_zero, Nat.sub_zero, ← List.range_eq_range', ← count]
      rfl
    dispatches := by
      rw [Nat.zero_mul]
      rfl
    completions := by
      rw [Nat.zero_mul]
      rfl }

/-- A run in which no group is in hand yet ends with the last batch, if the counter of cycles has room
for it. -/
theorem InHand.run {begun : Job SyntheticProgram FixedLatency Placer}
    (inHand : r.InHand 0 0 r.steps begun) (some_groups : 0 < r.groups)
    (begins : begin.outcome job = (.ok (), begun)) (room : r.batches * r.steps < wordBound) :
    ∃ final, Job.run.outcome job = (.ok final.device.stats, final.finished) ∧
      Performs (r.timetable 0 r.batches) begun final ∧ r.Rested r.groups final ∧
      final.device.cycle = r.batches * r.steps := by
  have start : begun.device.cycle = 0 := by
    have clock := inHand.clock
    omega
  have some_batches : 0 < r.batches := lt_batches.mpr (by rwa [Nat.zero_mul])
  obtain ⟨left, count⟩ := Nat.exists_eq_add_of_lt some_batches
  rw [Nat.zero_add] at count
  obtain ⟨final, drives, performs, rested, clock⟩ :=
    inHand.drive ((Nat.zero_add _).trans count.symm)
  rw [← count] at drives performs
  obtain ⟨rest, enough⟩ := Nat.exists_eq_add_of_le (Nat.le_sub_one_of_lt room)
  refine ⟨final, ?_, performs, rested, clock⟩
  rw [run_outcome, runWithin_outcome begins, start, Nat.sub_zero, enough, Nat.add_comm, drives]
  rfl

/-- Every launch that a device can be given has a rhythm. -/
theorem exists_rhythm {kinds : List InstKind} {baseAddr : Nat} (valid : config.validate = .ok ())
    (small : config.wavefrontSize < countBound) (latency : Nat)
    (made : NdRange.create launch number kernelName globalSize localSize wavefrontSize = .ok nd) :
    ∃ r : Rhythm, r.program = .ofKinds kinds baseAddr ∧ r.latency = latency ∧
      r.lanes = config.streamCores ∧ r.units = config.computeUnits ∧ r.groups = nd.groupCount ∧
      0 < r.groups ∧ ∀ (group : Nat) (wavefronts : List Wavefront),
        nd.wavefrontsOf group = .ok wavefronts →
          (∀ w ∈ wavefronts, w.items.start < w.items.stop) ∧
          (ComputeUnit.opening r.lanes wavefronts).DrainsIn r.program r.latency r.steps := by
  have kept : .end ∉ (SyntheticProgram.ofKinds kinds baseAddr).kinds :=
    SyntheticProgram.end_notMem_ofKinds kinds baseAddr
  obtain ⟨some_units, some_lanes, -⟩ := DeviceConfig.validate_eq_ok valid
  have width := DeviceConfig.laneWord_ne_zero valid small
  obtain ⟨count, size, wide, some_groups, sized, -, rfl⟩ := NdRange.itemCount_of_create made
  let row := NdRange.groupWavefronts wavefrontSize size (ceilDiv size wavefrontSize)
  have items : ∀ group, ∀ w ∈ row group, w.items.start < w.items.stop :=
    fun group w member => NdRange.items_of_mem_groupWavefronts (Nat.ne_of_gt wide) member
  have some_wavefronts : row 0 ≠ [] := by
    refine List.ne_nil_of_length_pos ?_
    have length : (row 0).length = ceilDiv size wavefrontSize := by
      simp [row, NdRange.groupWavefronts]
    rw [length, ceilDiv]
    exact Nat.div_pos (by omega) wide
  obtain ⟨rest, drains⟩ := ComputeUnit.exists_drainsIn_opening kept some_lanes width some_wavefronts
    (items 0) latency
  refine ⟨⟨.ofKinds kinds baseAddr, kept, latency, config.streamCores, config.computeUnits,
    some_units, count, rest⟩, rfl, rfl, rfl, rfl, ?_, some_groups, fun group wavefronts listed => ?_⟩
  · simp [NdRange.groupCount, NdRange.cut]
  · rw [NdRange.wavefrontsOf_cut (NdRange.lt_of_wavefrontsOf_cut listed)] at listed
    cases listed
    refine ⟨items group, ?_⟩
    rw [ComputeUnit.opening_congr (NdRange.outline_groupWavefronts ..)]
    exact drains

end Fresh

end Rhythm

/-! ## A group on its own -/

namespace ComputeUnit

/-- A new unit on its own takes as many steps for a group as the outline of the group says. -/
theorem takes_alone_iff {p : SyntheticProgram} {lanes n : Nat} {wavefronts : List Wavefront}
    (memory : FixedLatency) (kept : .end ∉ p.kinds) (some_lanes : 0 < lanes)
    (width : laneWord (max lanes 1) ≠ 0) (items : ∀ w ∈ wavefronts, w.items.start < w.items.stop)
    (drains : (opening lanes wavefronts).DrainsIn p memory.latency (n + 1))
    (unit deviceId group start steps : Nat) (order : StageOrder) :
    ∃ u, ({ create unit deviceId lanes with order } : ComputeUnit).assign group wavefronts = .ok u ∧
      (({ unit := u, isa := p, memory } : Bench SyntheticProgram FixedLatency).Takes start steps ↔
        steps = n + 1) := by
  let u : ComputeUnit := { create unit deviceId lanes with order }
  have sound : u.Sound := (Sound.create width).withOrder order
  have follows : u.Follows p := Follows.create p some_lanes order
  have given := u.assign_eq rfl group wavefronts
  have outline : (u.loaded group wavefronts).outline start = opening lanes wavefronts := by
    have same := sound.outline_loaded rfl group start wavefronts
    rwa [show u.lanes.length = lanes by simp [u, create]] at same
  rw [← outline] at drains
  have takes : ({ unit := u.loaded group wavefronts, isa := p, memory } :
      Bench SyntheticProgram FixedLatency).Takes start (n + 1) :=
    Bench.takes_of_drainsIn (follows.loaded sound rfl group items) (sound.assign given) kept rfl rfl
      drains
  refine ⟨_, given, fun takes' => takes'.unique takes, fun same => same ▸ takes⟩

end ComputeUnit

/-! ## Makespan -/

namespace Job

open TraceEvent

section Makespan

variable {id : Nat} {config : DeviceConfig} {p : SyntheticProgram} {memory : FixedLatency}
  {device : PlacementPolicy → Device SyntheticProgram FixedLatency Placer} {nd : NdRange}
  {policy : PlacementPolicy}

/-- Two new devices that differ in their placement only let in the same launches. -/
theorem begin_of_other
    (built : ∀ policy, Device.build id { config with placement := policy } p memory policy.build =
      .ok (device policy)) (order : StageOrder) (sink : Sink)
    (admitted : (begin.outcome (Job.fresh (device policy) order sink nd)).1 = .ok ())
    (other : PlacementPolicy) :
    begin.outcome (Job.fresh (device other) order sink nd) =
      (.ok (), (Job.fresh (device other) order sink nd).admitted) := by
  obtain ⟨-, here⟩ := Device.build_eq_ok (built policy)
  obtain ⟨-, there⟩ := Device.build_eq_ok (built other)
  have fits : (Job.fresh (device policy) order sink nd).Fits := by
    rcases begin_cases (Job.fresh (device policy) order sink nd) with
      ⟨e, refused⟩ | ⟨-, active, under_way, -⟩ | ⟨-, -, fits⟩
    · rw [refused] at admitted
      cases admitted
    · rw [here] at under_way
      cases under_way
    · exact fits
  rw [here] at fits
  rw [there]
  exact begin_of_fits rfl fits

/-- New devices that differ in their placement only are twins. -/
theorem twins_fresh
    (built : ∀ policy, Device.build id { config with placement := policy } p memory policy.build =
      .ok (device policy)) (order : StageOrder) (sink : Sink) (nd : NdRange)
    (other : PlacementPolicy) :
    Twins (Job.fresh (device policy) order sink nd).admitted
      (Job.fresh (device other) order sink nd).admitted := by
  obtain ⟨-, here⟩ := Device.build_eq_ok (built policy)
  obtain ⟨-, there⟩ := Device.build_eq_ok (built other)
  rw [here, there]
  exact ⟨_, _, rfl⟩

/-- On a memory that always takes as long, a group takes some number of cycles, `steps`, which are
those that it takes on a new unit alone, whatever the group and the unit. A new device with either
placement then dispatches group `g` to unit `g % units`, where it begins in the first and ends in the
last cycle of batch `g / units`, and the run ends with the last batch. The trace is the same for both
placements. -/
theorem makespan {kinds : List InstKind} {baseAddr : Nat}
    (built : ∀ policy, Device.build id { config with placement := policy } (.ofKinds kinds baseAddr)
      memory policy.build = .ok (device policy))
    (small : config.wavefrontSize < countBound) {launch number : Nat} {kernelName : String}
    {globalSize localSize : Dim3} {wavefrontSize : Nat}
    (made : NdRange.create launch number kernelName globalSize localSize wavefrontSize = .ok nd)
    (order : StageOrder)
    (admitted : (begin.outcome (Job.fresh (device policy) order .keepAll nd)).1 = .ok ()) :
    let units := config.computeUnits
    ∃ steps,
      (∀ group < nd.groupCount, ∃ wavefronts, nd.wavefrontsOf group = .ok wavefronts ∧
        ∀ (unit deviceId start steps' : Nat) (order : StageOrder), ∃ u,
          ({ ComputeUnit.create unit deviceId config.streamCores with order } :
            ComputeUnit).assign group wavefronts = .ok u ∧
          (({ unit := u, isa := .ofKinds kinds baseAddr, memory } :
            Bench SyntheticProgram FixedLatency).Takes start steps' ↔ steps' = steps)) ∧
      (ceilDiv nd.groupCount units * steps < wordBound → ∃ trace : List TraceEvent,
        trace.filter (·.action == .run) = (List.range nd.groupCount).map (fun group =>
          TraceEvent.dispatch (group / units * steps + 1) (group % units) group) ∧
        trace.filter (·.action == .complete) = (List.range nd.groupCount).map (fun group =>
          completion ((group / units + 1) * steps) (group % units) group) ∧
        ∀ policy, ∃ stats after,
          run.outcome (Job.fresh (device policy) order .keepAll nd) = (.ok stats, after) ∧
          after.trace = trace ∧
          after.device.cycle = ceilDiv nd.groupCount units * steps ∧
          stats.cycles = ceilDiv nd.groupCount units * steps) := by
  intro units
  obtain ⟨valid, -⟩ := Device.build_eq_ok (built policy)
  obtain ⟨some_units, some_lanes, -⟩ := DeviceConfig.validate_eq_ok valid
  have width := DeviceConfig.laneWord_ne_zero valid small
  obtain ⟨r, program, latency, lanes, sameUnits, groups, some_groups, duration⟩ :
      ∃ r : Rhythm, r.program = .ofKinds kinds baseAddr ∧ _ :=
    Rhythm.exists_rhythm valid small memory.latency made
  refine ⟨r.steps, fun group inside => ?_, fun room => ?_⟩
  · obtain ⟨g, found⟩ : ∃ g, nd.groups[group]? = some g :=
      ⟨_, Array.getElem?_eq_getElem inside⟩
    have listed := NdRange.wavefrontsOf_of_found found
    obtain ⟨items, drains⟩ := duration group _ listed
    rw [program, latency, lanes] at drains
    refine ⟨_, listed, fun unit deviceId start steps' order => ?_⟩
    exact ComputeUnit.takes_alone_iff memory (SyntheticProgram.end_notMem_ofKinds kinds baseAddr)
      some_lanes width items drains unit deviceId group start steps' order
  · have inHand : ∀ policy, r.InHand 0 0 r.steps
        (Job.fresh (device policy) order .keepAll nd).admitted := by
      intro policy
      have built := built policy
      rw [← program] at built
      exact .fresh built small made order latency.symm lanes.symm sameUnits.symm groups.symm
        fun group wavefronts listed => (duration group wavefronts listed).2
    rw [← groups, show units = r.units from sameUnits.symm] at room ⊢
    have runs := fun other => (inHand other).run some_groups
      (begin_of_other built order .keepAll admitted other) room
    obtain ⟨final, -, performs, rested, -⟩ := runs policy
    refine ⟨final.trace, rested.dispatches, rested.completions, fun other => ?_⟩
    obtain ⟨final', done, performs', rested', clock⟩ := runs other
    have twins := performs.twins (twins_fresh built order .keepAll nd other) performs'
    refine ⟨_, _, done, ?_, clock, clock⟩
    rw [finished, rested'.governs.keepsAll.flush_eq, trace, trace, ← twins.sink_eq]

end Makespan

/-- On two units with a memory that takes three cycles, a group of eight items takes 29 cycles. So the
first two of three groups run from cycle 1 to cycle 29, the third from cycle 30 to cycle 58, and
either placement reports the same. -/
theorem makespan_on_two_units :
    ∃ (device : PlacementPolicy → Device SyntheticProgram FixedLatency Placer) (nd : NdRange),
      (∀ policy, Device.build 0
        { computeUnits := 2, streamCores := 2, wavefrontSize := 4, placement := policy }
        (.ofKinds [.load, .alu]) { latency := 3 } policy.build = .ok (device policy)) ∧
      NdRange.create 1 0 "kernel" ⟨24, 1, 1⟩ ⟨8, 1, 1⟩ 4 = .ok nd ∧
      ∃ trace : List TraceEvent,
        trace.filter (·.action == .run) =
          [.dispatch 1 0 0, .dispatch 1 1 1, .dispatch 30 0 2] ∧
        trace.filter (·.action == .complete) =
          [completion 29 0 0, completion 29 1 1, completion 58 0 2] ∧
        ∀ policy, ∃ stats after,
          run.outcome (Job.fresh (device policy) .reverse .keepAll nd) = (.ok stats, after) ∧
          after.trace = trace ∧ stats.cycles = 58 := by
  have each : ∀ policy : PlacementPolicy, ∃ device, Device.build 0
      { computeUnits := 2, streamCores := 2, wavefrontSize := 4, placement := policy }
      (SyntheticProgram.ofKinds [.load, .alu]) ({ latency := 3 } : FixedLatency) policy.build =
        .ok device := by
    intro policy
    cases policy
    · exact ⟨_, rfl⟩
    · exact ⟨_, rfl⟩
  obtain ⟨device, built⟩ := Classical.skolem.mp each
  obtain ⟨nd, made⟩ : ∃ nd, NdRange.create 1 0 "kernel" ⟨24, 1, 1⟩ ⟨8, 1, 1⟩ 4 = .ok nd := ⟨_, rfl⟩
  have admitted : (begin.outcome (Job.fresh (device .firstIdle) .reverse .keepAll nd)).1 =
      .ok () := by
    obtain ⟨-, new⟩ := Device.build_eq_ok (built .firstIdle)
    obtain rfl : nd = _ := (Except.ok.inj made).symm
    rw [new]
    rfl
  obtain ⟨steps, alone, runs⟩ :=
    @makespan 0 { computeUnits := 2, streamCores := 2, wavefrontSize := 4 } { latency := 3 } device nd
      .firstIdle [.load, .alu] 0 built (by decide) 1 0 "kernel" _ _ 4 made .reverse admitted
  have count : nd.groupCount = 3 := by
    obtain rfl : nd = _ := (Except.ok.inj made).symm
    rfl
  have duration : steps = 29 := by
    obtain ⟨wavefronts, listed, measured⟩ := alone 0 (by omega)
    obtain rfl : wavefronts = NdRange.groupWavefronts 4 8 2 0 := by
      obtain rfl : nd = _ := (Except.ok.inj made).symm
      exact (Except.ok.inj listed).symm
    have drains : (ComputeUnit.opening 2 (NdRange.groupWavefronts 4 8 2 0)).DrainsIn
        (.ofKinds [.load, .alu]) 3 29 := by decide +kernel
    obtain ⟨u, given, takes⟩ := measured 0 0 0 29 .reverse
    obtain ⟨u', given', takes'⟩ := ComputeUnit.takes_alone_iff { latency := 3 }
      (SyntheticProgram.end_notMem_ofKinds [.load, .alu] 0) (by decide) (by decide) (by decide) drains
      0 0 0 0 29 .reverse
    obtain rfl : u = u' := Except.ok.inj (given.symm.trans given')
    exact (takes.mp (takes'.mpr rfl)).symm
  subst duration
  rw [count] at runs
  obtain ⟨trace, dispatches, completions, each⟩ := runs (by decide)
  refine ⟨device, nd, built, made, trace, dispatches, completions, fun policy => ?_⟩
  obtain ⟨stats, after, ran, same, -, cycles⟩ := each policy
  exact ⟨stats, after, ran, same, cycles⟩

end Job

end Accelerator
