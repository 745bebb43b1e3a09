import Accelerator.Proofs.Device.AnyLaunch
import Accelerator.Proofs.Device.Stays

/-!
# Completions that are refused

A unit that has finished its group is not idle before a launch has taken the group for done. The unit
has worked by then, and what its work has led to stays; but nothing else happens if the launch
refuses. From then on the unit is through with its group and waits: it can be stepped with any
launches that refuse the group without a trace of it, and the first launch that has the group running
takes it (`completion_is_all_or_nothing`).
-/

namespace Accelerator

/-- The error says that a group cannot be taken for done. -/
def Error.refusesGroup : Error → Bool
  | invalidTransition .. | unknownGroup _ => true
  | _ => false

namespace NdRange

variable {nd next : NdRange} {group unit : Nat}

theorem markDone_of_refused {e : Error} (refused : nd.runningGroup group = .error e) :
    nd.markDone group = .error e := by
  rw [markDone, refused]
  rfl

theorem markDone_of_running {g : WorkGroup} (running : nd.runningGroup group = .ok (g, unit)) :
    nd.markDone group = .ok (nd.finish g unit) := by
  rw [markDone, running]
  rfl

/-- Exactly one group is done that ran before. -/
structure Finishes (nd next : NdRange) (group : Nat) : Prop where
  done : next.status group = .ok .done
  counted : next.doneCount = nd.doneCount + 1
  queue : next.pending = nd.pending
  others : ∀ other, other ≠ group → next.groups[other]? = nd.groups[other]?

/-- A running group is finished. -/
theorem Named.finishes (named : nd.Named) (running : nd.status group = .ok .running) :
    ∃ g unit, nd.runningGroup group = .ok (g, unit) ∧ nd.Finishes (nd.finish g unit) group := by
  obtain ⟨g, found, status⟩ := status_eq_ok.mp running
  obtain rfl := named group g found
  obtain ⟨unit, runs⟩ : ∃ unit, g.phase = .running unit := by
    rw [WorkGroup.status] at status
    rcases phase : g.phase with _ | unit | unit
    · simp [phase, Phase.status] at status
    · exact ⟨unit, rfl⟩
    · simp [phase, Phase.status] at status
  have groups : ∀ other, (nd.finish g unit).groups[other]? =
      if other = g.id then some { g with phase := .done unit } else nd.groups[other]? :=
    getElem?_setPhase found
  refine ⟨g, unit, runningGroup_eq_ok.mpr ⟨found, runs⟩, ?_, rfl, rfl, fun other differs => ?_⟩
  · exact status_eq_ok.mpr ⟨_, (groups g.id).trans (if_pos rfl), rfl⟩
  · exact (groups other).trans (if_neg differs)

end NdRange

namespace Device

variable {ι μ π : Type} {d after : Device ι μ π} {unit group : Nat} {u v : ComputeUnit}

/-! ## Units that are through with their group -/

/-- The unit is through with its group, and still holds it. -/
structure Through (d : Device ι μ π) (unit group : Nat) (v : ComputeUnit) : Prop where
  isBusy : d.busy.contains unit = true
  resident : d.cluster.units[unit]? = some v
  held : v.group = some group
  drained : v.isDrained = true

/-- The unit has worked on its group, and apart from this nothing has happened. -/
structure Worked (d after : Device ι μ π) (unit group : Nat) (v : ComputeUnit) : Prop where
  isBusy : d.busy.contains unit = true
  resident : after.cluster.units[unit]? = some v
  held : v.group = some group
  others : ∀ other, other ≠ unit → after.cluster.units[other]? = d.cluster.units[other]?
  idle : after.idle = d.idle
  busy : after.busy = d.busy
  trace : ∃ events, after.sink = d.sink.recordStages events ∧
    ∀ event ∈ events, event.action ≠ .complete

theorem Worked.through (worked : d.Worked after unit group v) (drained : v.isDrained = true) :
    after.Through unit group v :=
  ⟨worked.busy.symm ▸ worked.isBusy, worked.resident, worked.held, drained⟩

/-- A completion: the unit is the last of the idle ones, and this is told once. -/
structure Completed (d after : Device ι μ π) (unit group : Nat) : Prop where
  released : ∃ v, after.cluster.units[unit]? = some v ∧ v.group = none
  idle : after.idle.toList = d.idle.toList ++ [unit]
  busy : after.busy.toList = d.busy.toList.erase unit
  others : ∀ other, other ≠ unit → after.cluster.units[other]? = d.cluster.units[other]?
  trace : after.sink = d.sink.record { cycle := d.cycle, unit, group, action := .complete }

end Device

namespace Job

variable {ι μ π : Type} {job : Job ι μ π} {unit group : Nat} {u v : ComputeUnit}

/-- Where nothing has been done, nothing changes. -/
theorem worked_bench (resident : job.device.cluster.units[unit]? = some u) :
    job.worked unit (job.bench u) = job := by
  have units : (job.device.cluster.setUnit unit u).units = job.device.cluster.units := by
    refine Array.ext_getElem? fun other => (getElem?_setUnit resident other).trans ?_
    by_cases same : other = unit
    · rw [if_pos same, same, resident]
    · rw [if_neg same]
  have cluster : job.device.cluster.settle unit (job.bench u) = job.device.cluster := by
    rw [Cluster.settle]
    show ({ units := (job.device.cluster.setUnit unit u).units, isa := _, memory := _ } :
      Cluster ι μ) = _
    rw [units]
    rfl
  have sink : job.device.sink.recordStages (job.bench u).events = job.device.sink := by
    simp [bench, Sink.recordStages]
  rw [worked, cluster, sink]

variable [InstructionModel ι] [MemoryService μ]

/-- A unit that is through with its group does not work any more; the launch is asked again. -/
theorem stepUnit_outcome_of_through (through : job.device.Through unit group v) (sound : v.Sound) :
    (stepUnit unit).outcome job = (complete unit group).outcome job := by
  have rests : (job.bench v).cycled v.order job.device.cycle group = job.bench v :=
    if_pos through.drained
  rw [stepUnit_outcome_of_busy through.isBusy through.resident sound through.held, rests,
    worked_bench through.resident]
  exact if_pos through.drained

end Job

namespace Device

variable {ι μ π : Type} [InstructionModel ι] [MemoryService μ]

/-! ## Attempts -/

/-- Step a unit with a launch, whether this is refused or not. -/
def attempt (d : Device ι μ π) : Nat × NdRange → (Except Error Unit × NdRange) × Device ι μ π
  | (unit, nd) =>
    let done := (Job.stepUnit unit).outcome { device := d, launch := nd }
    ((done.1, done.2.launch), done.2.device)

variable {d after : Device ι μ π} {unit group owner : Nat} {u v : ComputeUnit} {nd : NdRange}

/-- An attempt that is refused without having changed anything. -/
theorem Through.attempt_of_error (through : d.Through unit group v) (sorted : d.Sorted) {e : Error}
    (refused : nd.runningGroup group = .error e) : d.attempt (unit, nd) = ((.error e, nd), d) := by
  have sound := sorted.sound unit v through.resident
  have asked : (Job.stepUnit unit).outcome ⟨d, nd⟩ = (Job.complete unit group).outcome ⟨d, nd⟩ :=
    Job.stepUnit_outcome_of_through through sound
  have unfit : (Job.complete unit group).outcome ⟨d, nd⟩ = (.error e, ⟨d, nd⟩) := by
    rw [Job.complete, Attempt.outcome_get_bind, Attempt.outcome_bind, Attempt.outcome_ofExcept,
      refused]
  rw [attempt, asked, unfit]

theorem Through.attempt_of_running (through : d.Through unit group v) (sorted : d.Sorted)
    {g : WorkGroup} (running : nd.runningGroup group = .ok (g, owner)) :
    d.attempt (unit, nd) = ((.ok (), nd.finish g owner), d.freed unit v group) := by
  have sound := sorted.sound unit v through.resident
  let job : Job ι μ π := ⟨d, nd⟩
  have asked : (Job.stepUnit unit).outcome job = (Job.complete unit group).outcome job :=
    Job.stepUnit_outcome_of_through through sound
  have resident : job.device.cluster.units[unit]? = some v := through.resident
  rcases Job.complete_cases resident group with
    ⟨e, refused, -⟩ | ⟨g', owner', running', done⟩
  · cases refused.symm.trans running
  · cases running'.symm.trans running
    rw [attempt, asked, done]

omit [InstructionModel ι] [MemoryService μ] in
theorem Through.completed (through : d.Through unit group v) (sorted : d.Sorted) :
    d.Completed (d.freed unit v group) unit group where
  released := ⟨_, (Job.getElem?_setUnit through.resident unit).trans (if_pos rfl),
    group_release through.held through.drained⟩
  idle := (sorted.lists_freed through.resident through.held through.isBusy).1.toList_eq
  busy := (sorted.lists_freed through.resident through.held through.isBusy).2.1.toList_eq
  others other differs :=
    (Job.getElem?_setUnit through.resident other).trans (if_neg differs)
  trace := rfl

/-- The ways in which an attempt ends: the unit has no work, or it works and is not through yet, or
the launch refuses its group, or takes it for done. -/
inductive Attempted (d : Device ι μ π) (unit : Nat) (nd : NdRange) :
    (Except Error Unit × NdRange) × Device ι μ π → Prop
  | rests {e : Error} (barred : e.refusesGroup = false) : Attempted d unit nd ((.error e, nd), d)
  | works {after : Device ι μ π} {group : Nat} {v : ComputeUnit}
      (worked : d.Worked after unit group v) : Attempted d unit nd ((.ok (), nd), after)
  | refuses {after : Device ι μ π} {group : Nat} {v : ComputeUnit} {e : Error}
      (worked : d.Worked after unit group v) (drained : v.isDrained = true)
      (refused : nd.runningGroup group = .error e) : Attempted d unit nd ((.error e, nd), after)
  | completes {between : Device ι μ π} {group owner : Nat} {v : ComputeUnit} {g : WorkGroup}
      (worked : d.Worked between unit group v) (drained : v.isDrained = true)
      (running : nd.runningGroup group = .ok (g, owner)) :
    Attempted d unit nd ((.ok (), nd.finish g owner), between.freed unit v group)

theorem Sorted.attempted (sorted : d.Sorted) (unit : Nat) (nd : NdRange) :
    d.Attempted unit nd (d.attempt (unit, nd)) := by
  let job : Job ι μ π := ⟨d, nd⟩
  rw [attempt]
  cases isBusy : d.busy.contains unit with
  | false =>
      have notBusy : job.device.busy.contains unit = false := isBusy
      rw [Job.stepUnit_outcome_of_idle notBusy]
      refine .rests ?_
      split <;> rfl
  | true =>
      obtain ⟨u, group, resident, held⟩ := sorted.busy unit isBusy
      let bench := (job.bench u).cycled u.order d.cycle group
      let between := job.worked unit bench
      have resident' : between.device.cluster.units[unit]? = some bench.unit :=
        Job.resident_worked resident
      have worked : d.Worked between.device unit group bench.unit := by
        refine ⟨isBusy, resident', (Bench.cycled_group ..).trans held, fun other differs => ?_,
          rfl, rfl, bench.events, rfl, fun event member => ?_⟩
        · exact (Job.getElem?_setUnit resident other).trans (if_neg differs)
        · exact (Bench.isOfStage_of_mem_cycled rfl member).1.2.2.2
      have asked : (Job.stepUnit unit).outcome job =
          if bench.unit.isDrained then (Job.complete unit group).outcome between
          else (.ok (), between) :=
        Job.stepUnit_outcome_of_busy isBusy resident (sorted.sound unit u resident) held
      rw [asked]
      by_cases drained : bench.unit.isDrained = true
      · rw [if_pos drained]
        rcases Job.complete_cases resident' group with
          ⟨e, unfit, refused⟩ | ⟨g, owner, running, done⟩
        · rw [refused]
          exact .refuses worked drained unfit
        · rw [done]
          exact .completes worked drained running
      · rw [if_neg drained]
        exact .works worked

theorem Sorted.attempt (sorted : d.Sorted) (a : Nat × NdRange) : (d.attempt a).2.Sorted :=
  Job.keeps_sorted_stepUnit a.1 ⟨d, a.2⟩ sorted

/-- A unit that is through with its group waits while others work. -/
theorem Through.attempt (through : d.Through unit group v) (sorted : d.Sorted) {other : Nat}
    (differs : other ≠ unit) (nd : NdRange) :
    (d.attempt (other, nd)).2.Through unit group v := by
  have beside : ∀ {between : Device ι μ π} {group' : Nat} {w : ComputeUnit},
      d.Worked between other group' w → between.Through unit group v := fun worked =>
    ⟨worked.busy.symm ▸ through.isBusy, (worked.others unit differs.symm).trans through.resident,
      through.held, through.drained⟩
  have attempted := sorted.attempted other nd
  generalize d.attempt (other, nd) = done at attempted ⊢
  cases attempted with
  | rests => exact through
  | works worked => exact beside worked
  | refuses worked => exact beside worked
  | @completes between group' owner w g worked =>
      have still := beside worked
      refine ⟨?_, (Job.getElem?_setUnit worked.resident unit).trans ?_, still.held, still.drained⟩
      · obtain ⟨busy, listed⟩ := sorted.busyListed
        rw [← worked.busy] at listed
        have here := (listed.member other).mp (worked.busy.symm ▸ worked.isBusy)
        refine ((listed.remove here).member unit).mpr ?_
        exact (List.mem_erase_of_ne differs.symm).mpr ((listed.member unit).mp still.isBusy)
      · exact (if_neg differs.symm).trans still.resident

/-- A launch that does not take the group for done changes nothing. -/
theorem Through.attempt_of_refused (through : d.Through unit group v) (sorted : d.Sorted)
    (refused : (nd.markDone group).isOk = false) :
    d.attempt (unit, nd) = (((nd.markDone group).map fun _ => (), nd), d) := by
  rcases running : nd.runningGroup group with e | ⟨g, owner⟩
  · rw [NdRange.markDone_of_refused running]
    exact through.attempt_of_error sorted running
  · rw [NdRange.markDone_of_running running] at refused
    cases refused

/-- Neither do any number of them. -/
theorem Through.unmoved (through : d.Through unit group v) (sorted : d.Sorted)
    {attempts : List (Nat × NdRange)} (own : ∀ a ∈ attempts, a.1 = unit)
    (refused : ∀ a ∈ attempts, (a.2.markDone group).isOk = false) :
    session Device.attempt d attempts =
      (attempts.map fun a => ((a.2.markDone group).map fun _ => (), a.2), d) := by
  induction attempts with
  | nil => rfl
  | cons a rest ih =>
      obtain ⟨other, nd⟩ := a
      obtain rfl : other = unit := own _ (List.mem_cons_self ..)
      have first := through.attempt_of_refused sorted (refused _ (List.mem_cons_self ..))
      have others := ih (fun a later => own a (List.mem_cons_of_mem _ later))
        fun a later => refused a (List.mem_cons_of_mem _ later)
      rw [session_cons, first, others, List.map_cons]

/-- The unit waits while launches refuse its group and while other units work. -/
theorem Through.waits (through : d.Through unit group v) (sorted : d.Sorted)
    {attempts : List (Nat × NdRange)}
    (refused : ∀ a ∈ attempts, a.1 = unit → (a.2.markDone group).isOk = false) :
    (session Device.attempt d attempts).2.Sorted ∧
      (session Device.attempt d attempts).2.Through unit group v := by
  refine session_kept (P := fun d : Device ι μ π => d.Sorted ∧ d.Through unit group v) ?_
    ⟨sorted, through⟩
  rintro d ⟨other, nd⟩ member ⟨sorted, through⟩
  refine ⟨sorted.attempt _, ?_⟩
  by_cases same : other = unit
  · subst same
    rw [through.attempt_of_refused sorted (refused _ member rfl)]
    exact through
  · exact through.attempt sorted same nd

/-- Whatever has been done with a device: if a unit is stepped and the launch does not take its group
for done, the launch is unchanged, and of the device only the unit has worked, which still holds the
group; neither set has changed, and no completion is recorded. From then on the unit may be stepped
with launches that refuse the group, and others with any launches. The former change nothing at all,
and neither change the unit. As soon as it is stepped with a launch that has the group running, this
group and no other is done, the unit is the last of the idle ones, and one completion is recorded. -/
theorem completion_is_all_or_nothing [Placement π] {id : Nat} {config : DeviceConfig} {isa : ι}
    {memory : μ} {placement : π} {device : Device ι μ π}
    (built : build id config isa memory placement = .ok device)
    (small : config.wavefrontSize < countBound) (calls : List (Call ι μ π)) {unit : Nat}
    {nd left : NdRange} {e : Error} {after : Device ι μ π}
    (attempted : (device.afterCalls calls).attempt (unit, nd) = ((.error e, left), after))
    (unfit : e.refusesGroup = true) :
    ∃ group v, nd.markDone group = .error e ∧ left = nd ∧
      (device.afterCalls calls).Worked after unit group v ∧
      ∀ attempts : List (Nat × NdRange),
        (∀ a ∈ attempts, a.1 = unit → (a.2.markDone group).isOk = false) →
        let (answers, later) := session attempt after attempts
        ((∀ a ∈ attempts, a.1 = unit) → later = after ∧
          answers = attempts.map fun a => ((a.2.markDone group).map fun _ => (), a.2)) ∧
        later.cluster.units[unit]? = some v ∧ later.busy.contains unit = true ∧
        ∀ owner : NdRange, owner.Reached → owner.status group = .ok .running →
          ∃ next last, later.attempt (unit, owner) = ((.ok (), next), last) ∧
            owner.Finishes next group ∧ later.Completed last unit group := by
  have sorted : (device.afterCalls calls).Sorted := (Sorted.of_build built small).afterCalls calls
  have sorted' := sorted.attempt (unit, nd)
  have ways := sorted.attempted unit nd
  rw [attempted] at sorted' ways
  cases ways with
  | rests barred => cases barred.symm.trans unfit
  | @refuses _ group v _ worked drained refused =>
      have through := worked.through drained
      refine ⟨group, v, NdRange.markDone_of_refused refused, rfl, worked, fun attempts refuse => ?_⟩
      obtain ⟨sorted, still⟩ := through.waits sorted' refuse
      refine ⟨fun own => ?_, still.resident, still.isBusy, fun owner reached running => ?_⟩
      · rw [through.unmoved sorted' own fun a member => refuse a member (own a member)]
        exact ⟨rfl, rfl⟩
      · obtain ⟨taken, books⟩ := reached.books
        obtain ⟨g, unit', runs, finishes⟩ := books.named.finishes running
        exact ⟨_, _, still.attempt_of_running sorted runs, finishes, still.completed sorted⟩

/-- A unit finishes its group in its sixth cycle, and has been stepped with a launch whose only group
waits. Two more attempts with that launch change nothing, and then the owner gets its group. -/
theorem completion_is_all_or_nothing_on_one_unit :
    ∃ (device : Device SyntheticProgram FixedLatency Placer) (nd stranger : NdRange),
      build 0 { computeUnits := 1, streamCores := 4, wavefrontSize := 4 }
        (.ofKinds []) { latency := 1 } PlacementPolicy.roundRobin.build = .ok device ∧
      NdRange.create 1 0 "a" ⟨4, 1, 1⟩ ⟨4, 1, 1⟩ 4 = .ok nd ∧
      NdRange.create 2 0 "b" ⟨4, 1, 1⟩ ⟨4, 1, 1⟩ 4 = .ok stranger ∧
      let steps := List.replicate 5 (Call.work (.stepUnit 0) stranger)
      let owner := (Job.Call.dispatch.perform.outcome { device, launch := nd }).2.launch
      ∃ after v next last,
        (device.afterCalls (.work .dispatch nd :: steps)).attempt (0, stranger) =
          ((.error (.invalidTransition 0 .pending .done), stranger), after) ∧
        after.cluster.units[0]? = some v ∧ v.group = some 0 ∧
        (session attempt after (List.replicate 2 (0, stranger))).2 = after ∧
        after.attempt (0, owner) = ((.ok (), next), last) ∧
        owner.Finishes next 0 ∧ after.Completed last 0 0 := by
  have built : build 0 { computeUnits := 1, streamCores := 4, wavefrontSize := 4 }
      (SyntheticProgram.ofKinds []) ({ latency := 1 } : FixedLatency)
      PlacementPolicy.roundRobin.build = .ok _ := rfl
  have made : NdRange.create 1 0 "a" ⟨4, 1, 1⟩ ⟨4, 1, 1⟩ 4 = .ok _ := rfl
  have other : NdRange.create 2 0 "b" ⟨4, 1, 1⟩ ⟨4, 1, 1⟩ 4 = .ok _ := rfl
  refine ⟨_, _, _, built, made, other, ?_⟩
  intro steps owner
  rcases attempted : (afterCalls _ (.work .dispatch _ :: steps)).attempt (0, _) with
    ⟨⟨answer, left⟩, after⟩
  have refused : answer = .error (.invalidTransition 0 .pending .done) := by
    refine (congrArg (·.1.1) attempted).symm.trans ?_
    decide +kernel
  subst refused
  obtain ⟨group, v, unfit, unchanged, worked, later⟩ :=
    completion_is_all_or_nothing built (by decide) _ attempted rfl
  obtain rfl : group = 0 := by
    rcases group with _ | group
    · rfl
    · cases unfit
  have refuses : ∀ a ∈ List.replicate 2 (0, left), a.1 = 0 ∧ (a.2.markDone 0).isOk = false := by
    intro a member
    rw [List.eq_of_mem_replicate member, unchanged]
    exact ⟨rfl, congrArg Except.isOk unfit⟩
  obtain ⟨again, -, -, completes⟩ := later _ fun a member _ => (refuses a member).2
  have same := (again fun a member => (refuses a member).1).1
  rw [same] at completes
  subst unchanged
  obtain ⟨next, last, accepted, finishes, completed⟩ :=
    completes owner (.work (.create made) _ .dispatch) (by decide +kernel)
  exact ⟨after, v, next, last, rfl, worked.resident, worked.held, same, accepted,
    finishes, completed⟩

end Device

end Accelerator
