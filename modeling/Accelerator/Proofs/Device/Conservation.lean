import Accelerator.Proofs.Device.Rounds
import Accelerator.Proofs.Device.Stays
import Accelerator.Proofs.Items

/-!
# Work is conserved

No unit stays idle while a group waits. In every cycle each busy unit is stepped once, so the cycles
that a unit counts are those for which it has had a group, from the cycle of the dispatch to that of the
completion (`work_is_conserved`).

The time for which a unit has had groups is read off the trace (`TraceEvent.time`): each dispatch opens
an account and each completion closes one. As long as a unit has a group, the cycles that it has counted
are short of that time by the one that comes next (`Job.Counted`).
-/

namespace Accelerator

/-! ## The time of groups -/

namespace TraceEvent

variable {unit group cycle : Nat} {events news : List TraceEvent}

/-- What an event adds to the time for which a unit has had groups: all the time that has passed, when
a group is done, less what had passed when it was dispatched. -/
def timeOn (unit : Nat) (e : TraceEvent) : Int :=
  if e.unit = unit then
    match e.action with
    | .run => -e.cycle
    | .complete => e.cycle + 1
    | _ => 0
  else 0

/-- The time for which a unit has had groups, as some events tell it. -/
def time (unit : Nat) (events : List TraceEvent) : Int := (events.map (timeOn unit)).sum

theorem time_append : time unit (events ++ news) = time unit events + time unit news := by
  rw [time, List.map_append, List.sum_append]
  rfl

@[simp] theorem time_nil : time unit [] = 0 := rfl

@[simp] theorem time_cons (e : TraceEvent) :
    time unit (e :: events) = timeOn unit e + time unit events := by
  rw [time, List.map_cons, List.sum_cons]
  rfl

theorem timeOn_dispatch (resident : Nat) :
    timeOn unit (dispatch cycle resident group) = if resident = unit then -(cycle : Int) else 0 := rfl

theorem timeOn_completion (resident : Nat) :
    timeOn unit (completion cycle resident group) =
      if resident = unit then (cycle : Int) + 1 else 0 := rfl

/-- Stages take no time of their own. -/
theorem time_of_stages {resident : Nat} (staged : ∀ e ∈ events, e.IsOfStage resident) :
    time unit events = 0 := by
  refine List.sum_eq_zero fun n member => ?_
  obtain ⟨e, here, rfl⟩ := List.mem_map.mp member
  obtain ⟨-, -, run, complete⟩ := staged e here
  unfold timeOn
  split
  · split
    · exact absurd ‹_› run
    · exact absurd ‹_› complete
    · rfl
  · rfl

/-- The time of a unit is made up of that of the groups. -/
theorem time_eq_sum {count : Nat} (known : ∀ e ∈ events, e.group < count) :
    time unit events = ((List.range count).map fun group => time unit (ofGroup group events)).sum := by
  induction events with
  | nil => simp [ofGroup]
  | cons e rest ih =>
      have inside : e.group ∈ List.range count :=
        List.mem_range.mpr (known e (List.mem_cons_self ..))
      have split : ∀ group, time unit (ofGroup group (e :: rest)) =
          (if e.group = group then timeOn unit e else 0) + time unit (ofGroup group rest) := by
        intro group
        by_cases same : e.group = group <;> simp [ofGroup, same]
      have alone : ((List.range count).map fun group =>
          if e.group = group then timeOn unit e else 0).sum = timeOn unit e := by
        rw [List.sum_map_eq_nsmul_single e.group _ fun other differs _ => if_neg (Ne.symm differs),
          List.count_eq_one_of_mem List.nodup_range inside, one_nsmul, if_pos rfl]
      rw [time_cons, ih fun e member => known e (List.mem_cons_of_mem _ member),
        List.map_congr_left fun group _ => split group, List.sum_map_add, alone]

end TraceEvent

open TraceEvent

/-- A unit that advances counts the cycle. -/
theorem Bench.busyCycles_cycled {ι μ : Type} [InstructionModel ι] [MemoryService μ] {b : Bench ι μ}
    (running : b.unit.isDrained = false) (order : StageOrder) (cycle group : Nat) :
    (b.cycled order cycle group).unit.stats.busyCycles = b.unit.stats.busyCycles + 1 := by
  rw [cycled, running, if_neg Bool.false_ne_true]
  rfl

namespace ComputeUnit

variable {u : ComputeUnit}

theorem busyCycles_release : u.release.2.stats.busyCycles = u.stats.busyCycles := by
  unfold release
  split
  · split <;> rfl
  · rfl

/-- A unit is not finished with a group whose wavefronts have not begun. -/
theorem isDrained_loaded (group : Nat) {wavefronts : List Wavefront} (some_work : wavefronts ≠ []) :
    (u.loaded group wavefronts).isDrained = false := by
  obtain ⟨w, rest, rfl⟩ := List.exists_cons_of_ne_nil some_work
  simp [isDrained, loaded]

end ComputeUnit

/-- No group of a launch is without wavefronts. -/
theorem NdRange.wavefronts_ne_nil {launch number : Nat} {kernelName : String}
    {globalSize localSize : Dim3} {wavefrontSize : Nat} {nd : NdRange}
    (made : NdRange.create launch number kernelName globalSize localSize wavefrontSize = .ok nd)
    {group : Nat} {wavefronts : List Wavefront} (listed : nd.wavefrontsOf group = .ok wavefronts) :
    wavefronts ≠ [] := by
  obtain ⟨count, size, sized, -, positive, -, rfl⟩ := itemCount_of_create made
  rw [wavefrontsOf_cut (lt_of_wavefrontsOf_cut listed)] at listed
  cases listed
  have some_wavefronts : 0 < ceilDiv size wavefrontSize :=
    Nat.div_pos (by omega) sized
  refine List.ne_nil_of_length_pos ?_
  rwa [groupWavefronts, List.length_map, List.length_range]

namespace Job

open Relation

/-- When a run is over every group has had its stay. -/
theorem Dispatched.exists_stay {μ π : Type} [Placement π] {job : Job SyntheticProgram μ π} {now : Nat}
    (told : job.Dispatched now) (quiet : Quiet job) {group : Nat}
    (inside : group < job.launch.groupCount) :
    ∃ (stay : Stay) (stages : List TraceEvent), stay.Tells job.trace group stages := by
  obtain ⟨g, unit, -, -, story⟩ := told.done quiet inside
  cases story with
  | @done _ start stop stages tells ordered staged alone =>
      exact ⟨⟨unit, start, stop⟩, stages, tells, ordered, staged, alone⟩

/-- A group takes its unit from the cycle of its dispatch to the end of that of its completion, and
takes no other unit. -/
theorem Stay.Tells.time_ofGroup {stay : Stay} {trace stages : List TraceEvent} {group : Nat}
    (tells : stay.Tells trace group stages) (unit : Nat) :
    time unit (ofGroup group trace) =
      ((if stay.unit = unit then stay.stop - stay.start + 1 else 0 : Nat) : Int) := by
  have ordered := tells.ordered
  rw [tells.told, time_cons, time_append, time_of_stages fun e member => (tells.staged e member).1,
    time_cons, time_nil, timeOn_dispatch, timeOn_completion]
  by_cases same : stay.unit = unit
  · simp only [if_pos same]
    omega
  · simp only [if_neg same]
    rfl

variable {ι μ π : Type} [Placement π] {job after : Job ι μ π} {late late' : Nat → Nat} {unit : Nat}

/-! ## What has been counted -/

/-- Every unit has counted the time for which it has had groups; while it has one, up to the cycle that
is the next one to be counted for it. -/
structure Counted (late : Nat → Nat) (job : Job ι μ π) : Prop where
  owned : job.Owned
  keeps : job.device.sink.KeepsAll
  /-- There is work to do in every group. -/
  peopled : ∀ (group : Nat) (wavefronts : List Wavefront),
    job.launch.wavefrontsOf group = .ok wavefronts → wavefronts ≠ []
  known : ∀ e ∈ job.trace, e.group < job.launch.groupCount
  /-- A unit that has finished its group has given it back. -/
  running : ∀ (unit : Nat) (u : ComputeUnit), job.device.cluster.units[unit]? = some u →
    u.isBusy = true → u.isDrained = false
  counted : ∀ (unit : Nat) (u : ComputeUnit), job.device.cluster.units[unit]? = some u →
    (u.stats.busyCycles : Int) = time unit job.trace + if u.isBusy then (late unit : Int) else 0

/-- One unit changes, and reports what has become of a group. -/
theorem Counted.of_change (counted : job.Counted late) (owned : after.Owned)
    (shape : after.launch.SameShape job.launch) (keeps : after.device.sink.KeepsAll)
    {news : List TraceEvent} (trace : after.trace = job.trace ++ news)
    (about : ∀ e ∈ news, e.unit = unit ∧ e.group < job.launch.groupCount) {v : ComputeUnit}
    (units : ∀ other, after.device.cluster.units[other]? =
      if other = unit then some v else job.device.cluster.units[other]?)
    (elsewhere : ∀ other, other ≠ unit → late' other = late other)
    (running : v.isBusy = true → v.isDrained = false)
    (here : (v.stats.busyCycles : Int) =
      time unit job.trace + time unit news + if v.isBusy then (late' unit : Int) else 0) :
    after.Counted late' where
  owned := owned
  keeps := keeps
  peopled := shape.wavefrontsOf ▸ counted.peopled
  known e member := by
    rw [shape.groupCount]
    rw [trace] at member
    rcases List.mem_append.mp member with old | new
    · exact counted.known e old
    · exact (about e new).2
  running := forall_units units running counted.running
  counted other w found := by
    rw [units] at found
    rw [trace, time_append]
    by_cases same : other = unit
    · subst same
      rw [if_pos rfl] at found
      cases found
      exact here
    · rw [if_neg same] at found
      have silent : time other news = 0 := by
        refine List.sum_eq_zero fun n member => ?_
        obtain ⟨e, new, rfl⟩ := List.mem_map.mp member
        exact if_neg fun there => same (there.symm.trans (about e new).1)
      rw [silent, Int.add_zero, elsewhere other same]
      exact counted.counted other w found

/-- What is dispatched in a cycle is dispatched for the next one. -/
theorem Counted.hands (counted : job.Counted fun _ => job.device.cycle + 1)
    (hands : job.Hands after) : after.Counted fun _ => after.device.cycle + 1 := by
  have owned := hands.owned counted.owned
  have shape := hands.sameRun.shape
  cases hands with
  | @intro placement unit u g rest wavefronts reliable pending found waits listed resident free =>
      have before := counted.counted unit u resident
      have inside : g.id < job.launch.groupCount := (Array.getElem?_eq_some_iff.mp found).1
      have about : ∀ e ∈ [TraceEvent.dispatch (job.device.cycle + 1) unit g.id],
          e.unit = unit ∧ e.group < job.launch.groupCount := by
        intro e new
        rw [List.mem_singleton.mp new]
        exact ⟨rfl, inside⟩
      refine counted.of_change owned shape (counted.keeps.record _) (counted.keeps.toList_record _)
        about (getElem?_setUnit resident) (fun _ _ => rfl) (fun _ => ?_) ?_
      · exact ComputeUnit.isDrained_loaded g.id (counted.peopled g.id wavefronts listed)
      · have before := counted.counted unit u resident
        have news : time unit [TraceEvent.dispatch (job.device.cycle + 1) unit g.id] =
            -((job.device.cycle + 1 : Nat) : Int) := by
          rw [time_cons, time_nil, timeOn_dispatch, if_pos rfl, Int.add_zero]
        rw [ComputeUnit.isBusy, free] at before
        show (u.stats.busyCycles : Int) = time unit job.trace +
          time unit [TraceEvent.dispatch (job.device.cycle + 1) unit g.id] +
            ((job.device.cycle + 1 : Nat) : Int)
        rw [news, Int.neg_add_cancel_right]
        exact before.trans (Int.add_zero _)

/-! ## Work -/

section Work

variable [InstructionModel ι] [MemoryService μ]

/-- The cycle that is the next to be counted, when only some units are still to be stepped. -/
def nextOf (cycle : Nat) (units : List Nat) (unit : Nat) : Nat :=
  if unit ∈ units then cycle else cycle + 1

/-- A unit that works counts the cycle, and gives its group back when it has finished it. -/
theorem Counted.works {rest : List Nat}
    (counted : job.Counted (nextOf job.device.cycle (unit :: rest))) (fresh : unit ∉ rest)
    (works : job.Works unit after) : after.Counted (nextOf after.device.cycle rest) := by
  have owned := works.owned counted.owned
  have shape := works.sameRun.shape
  rw [works.cycle_eq]
  cases works with
  | @intro u g resident held found runs =>
      let bench := (job.bench u).cycled u.order job.device.cycle g.id
      have before := counted.counted unit u resident
      have busy : u.isBusy = true := by rw [ComputeUnit.isBusy, held]; rfl
      have running := counted.running unit u resident busy
      have worked : bench.unit.stats.busyCycles = u.stats.busyCycles + 1 :=
        Bench.busyCycles_cycled (b := job.bench u) running _ _ _
      have released : bench.unit.release.2.isBusy = !bench.unit.isDrained :=
        ComputeUnit.isBusy_release (by rw [ComputeUnit.isBusy, Bench.cycled_group]; exact busy)
      have inside : g.id < job.launch.groupCount := (Array.getElem?_eq_some_iff.mp found).1
      have id : u.id = unit := counted.owned.numbered unit u resident
      have staged : ∀ e ∈ bench.events, e.IsOfStage unit ∧ e.group = g.id ∧ e.cycle = job.device.cycle :=
        fun e member => id ▸ Bench.isOfStage_of_mem_cycled rfl member
      obtain ⟨keeps, trace⟩ := trace_stepped counted.keeps unit u g
      refine counted.of_change owned shape keeps trace (fun e member => ?_)
        (getElem?_stepped resident) (fun other differs => ?_) (fun still => ?_) ?_
      · rcases List.mem_append.mp member with stage | last
        · obtain ⟨⟨here, -⟩, group, -⟩ := staged e stage
          exact ⟨here, group ▸ inside⟩
        · obtain ⟨-, last⟩ := List.mem_ite_nil_right.mp last
          rw [List.mem_singleton.mp last]
          exact ⟨rfl, inside⟩
      · simp [nextOf, differs]
      · rw [released, Bool.not_eq_true'] at still
        rwa [release_of_not_drained still]
      · rw [busy, if_pos rfl, nextOf, if_pos (List.mem_cons_self ..)] at before
        rw [released, time_append, time_of_stages fun e member => (staged e member).1,
          ComputeUnit.busyCycles_release, worked]
        rw [nextOf, if_neg fresh]
        cases bench.unit.isDrained with
        | true =>
            rw [if_pos rfl, time_cons, time_nil, timeOn_completion, if_pos rfl]
            simp only [Bool.not_true, Bool.false_eq_true, if_false]
            omega
        | false =>
            simp only [Bool.false_eq_true, if_false, Bool.not_false, if_true, time_nil]
            omega

/-- Units count the cycle one after the other. -/
theorem Counted.of_sweeps {units : List Nat} (counted : job.Counted (nextOf job.device.cycle units))
    (distinct : units.Nodup) (sweeps : Sweeps units job after) :
    after.Counted fun _ => after.device.cycle + 1 := by
  induction sweeps with
  | nil job =>
      have all : nextOf job.device.cycle [] = fun _ => job.device.cycle + 1 :=
        funext fun _ => if_neg List.not_mem_nil
      rwa [all] at counted
  | cons works _ ih =>
      obtain ⟨fresh, distinct⟩ := List.nodup_cons.mp distinct
      exact ih (counted.works fresh works) distinct

/-! ## Runs -/

omit [InstructionModel ι] [MemoryService μ] in
theorem Counted.of_hands (counted : job.Counted fun _ => job.device.cycle + 1)
    (path : ReflTransGen Hands job after) : after.Counted fun _ => after.device.cycle + 1 := by
  induction path with
  | refl => exact counted
  | tail _ hands ih => exact ih.hands hands

omit [InstructionModel ι] [MemoryService μ] in
/-- When a cycle begins it is the next to be counted for the busy units, all of which are still to be
stepped. -/
theorem Counted.ticked (counted : job.Counted fun _ => job.device.cycle + 1) :
    job.ticked.Counted (nextOf job.ticked.device.cycle job.device.busy.toList) where
  owned := counted.owned.ticked
  keeps := counted.keeps
  peopled := counted.peopled
  known := counted.known
  running := counted.running
  counted unit u resident := by
    have before := counted.counted unit u resident
    cases busy : u.isBusy with
    | false =>
        rw [busy] at before
        exact before
    | true =>
        rw [busy] at before
        have listed : unit ∈ job.device.busy.toList :=
          (counted.owned.busy_toList.2 unit).mpr ((counted.owned.contains_eq resident).1.trans busy)
        rw [nextOf, if_pos listed]
        exact before

omit [InstructionModel ι] [MemoryService μ] in
/-- The launch on which the device is at work makes no difference. -/
theorem Counted.withActive (counted : job.Counted late) (active : Option ActiveLaunch) :
    ({ job with device := { job.device with active } } : Job ι μ π).Counted late where
  owned := counted.owned.congr rfl rfl rfl rfl
  keeps := counted.keeps
  peopled := counted.peopled
  known := counted.known
  running := counted.running
  counted := counted.counted

/-- Whatever becomes of a run, units have counted the time for which they have had groups. -/
theorem keeps_counted_runWithin (budget : Option Nat) :
    Attempt.Keeps (fun job : Job ι μ π => job.Counted fun _ => job.device.cycle + 1)
      (runWithin budget) := by
  refine Attempt.Keeps.bind ?_ fun _ => Attempt.keeps_get.bind fun _ => ?_
  · intro job counted
    rcases job.begin_cases with ⟨e, refused⟩ | ⟨goes_on, -⟩ | ⟨begins, -⟩
    · rw [refused]
      exact counted
    · rw [goes_on]
      exact counted
    · rw [begins]
      exact counted.withActive _
  rw [drive_eq_driveWith]
  refine keeps_driveWith ?_ ?_ ?_ ?_ _ _
  · intro job counted
    obtain ⟨placed, done, path, -⟩ := counted.owned.place
    rw [done]
    exact counted.of_hands path
  · intro job counted
    obtain ⟨next, sweeps, advanced⟩ := counted.owned.advance
    rw [← advance_eq_advanceWith, advanced]
    exact counted.ticked.of_sweeps counted.owned.busy_toList.1 sweeps
  · intro job counted
    rw [finish_outcome, finished, counted.keeps.flush_eq]
    exact counted.withActive none
  · intro job counted
    rw [suspend_outcome, flushed, counted.keeps.flush_eq]
    exact counted

theorem Counted.afterRuns (counted : job.Counted fun _ => job.device.cycle + 1)
    (budgets : List (Option Nat)) :
    (job.afterRuns budgets).Counted fun _ => (job.afterRuns budgets).device.cycle + 1 :=
  keeps_afterRuns keeps_counted_runWithin counted budgets

/-- A run answers with what the device has done when it stops. -/
theorem Owned.stats_of_drive {room : Nat} {budget : Option Nat} {answer : Outcome}
    (owned : job.Owned) (done : (drive room budget).outcome job = (.ok answer, after)) :
    answer.stats = after.device.stats := by
  induction room generalizing job budget
  all_goals
    obtain ⟨placed, place, path, -⟩ := owned.place
    obtain ⟨owned', -, -⟩ := owned.of_hands path
    rw [drive_outcome place] at done
    split at done
    next =>
      cases done
      rfl
    split at done
    next =>
      cases done
      rfl
  case zero => cases done
  case succ room ih _ _ =>
    obtain ⟨next, sweeps, advanced⟩ := owned'.advance
    dsimp only at done
    rw [Attempt.outcome_bind_of_ok advanced] at done
    exact ih (sweeps.owned owned'.ticked) done

theorem Owned.stats_of_runWithin {budget : Option Nat} {answer : Outcome} (owned : job.Owned)
    (done : (runWithin budget).outcome job = (.ok answer, after)) :
    answer.stats = after.device.stats := by
  rcases job.begin_cases with ⟨e, refused⟩ | ⟨goes_on, -⟩ | ⟨begins, -⟩
  · rw [runWithin_outcome_of_error refused] at done
    cases done
  · rw [runWithin_outcome goes_on] at done
    exact owned.stats_of_drive done
  · have admitted : job.admitted.Owned := owned.congr rfl rfl rfl rfl
    rw [runWithin_outcome begins] at done
    exact admitted.stats_of_drive done

end Work

/-- Nothing is counted before the first run. -/
theorem Counted.fresh {id : Nat} {config : DeviceConfig} {isa : ι} {memory : μ} {placement : π}
    {device : Device ι μ π} (built : Device.build id config isa memory placement = .ok device)
    (small : config.wavefrontSize < countBound) (reliable : Placement.Reliable placement)
    {launch number : Nat} {kernelName : String} {globalSize localSize : Dim3}
    {wavefrontSize : Nat} {nd : NdRange}
    (made : NdRange.create launch number kernelName globalSize localSize wavefrontSize = .ok nd)
    (order : StageOrder) : (Job.fresh device order .keepAll nd).Counted late := by
  have units := Device.getElem?_of_build built order
  refine ⟨Owned.fresh built small reliable made order .keepAll, ⟨_, rfl⟩,
    fun group wavefronts listed => NdRange.wavefronts_ne_nil made listed,
    fun e member => absurd member List.not_mem_nil, fun unit u resident busy => ?_,
    fun unit u resident => ?_⟩
  · obtain ⟨-, rfl⟩ := (units unit u).mp resident
    cases busy
  · obtain ⟨-, rfl⟩ := (units unit u).mp resident
    rfl

/-! ## Every run -/

/-- In every run of a new launch on a new device, whatever its budgets: notes are taken of all cycles;
when units begin to work in one of them no unit is idle or no group waits, and each unit that is busy
then is stepped once, and no other. When the launch is complete, every unit has counted for each of its
groups the cycles from the dispatch to the completion, both included, and no others. -/
theorem work_is_conserved {μ : Type} [MemoryService μ] {id : Nat} {config : DeviceConfig}
    {p : SyntheticProgram} {memory : μ} {placement : π} {device : Device SyntheticProgram μ π}
    (built : Device.build id config p memory placement = .ok device)
    (small : config.wavefrontSize < countBound) (reliable : Placement.Reliable placement)
    {launch number : Nat} {kernelName : String} {globalSize localSize : Dim3}
    {wavefrontSize : Nat} {nd : NdRange}
    (made : NdRange.create launch number kernelName globalSize localSize wavefrontSize = .ok nd)
    (order : StageOrder) :
    (∀ (sink : Sink) (history : List (Option Nat)),
      let start : Logged SyntheticProgram μ π :=
        { job := Job.fresh device order sink nd, notes := [] }
      let log := start.afterRuns Logged.advance history
      log.job = (Job.fresh device order sink nd).afterRuns history ∧
      log.notes.reverse.map (·.start.device.cycle) = List.range' 1 log.job.device.cycle ∧
      ∀ round ∈ log.notes,
        (round.start.device.idle.isEmpty = true ∨ round.start.launch.hasPending = false) ∧
        (∀ unit, (round.steps.map (·.1)).count unit =
          if round.start.device.busy.contains unit then 1 else 0) ∧
        ∀ step ∈ round.steps, step.2 = .ok ()) ∧
    ∀ (history : List (Option Nat)) (budget : Option Nat) (answer : Outcome)
      (after : Job SyntheticProgram μ π),
      (runWithin budget).outcome ((Job.fresh device order .keepAll nd).afterRuns history) =
        (.ok answer, after) →
      budget = none ∨ answer.isCompleted = true →
      ∃ stay : Nat → Stay,
        (∀ group < nd.groupCount, ∃ stages, (stay group).Tells after.trace group stages) ∧
        ∀ unit < config.computeUnits, answer.stats.busyCycles[unit]? =
          some ((List.range nd.groupCount).map fun group =>
            if (stay group).unit = unit then (stay group).stop - (stay group).start + 1 else 0).sum := by
  refine ⟨fun sink history => ?_, fun history budget answer after ran ended => ?_⟩
  · intro start log
    have unbegun : start.job.device.cycle = 0 := by
      obtain ⟨-, rfl⟩ := Device.build_eq_ok built
      rfl
    have new : Logged.Complete start := {
      owned := Owned.fresh built small reliable made order sink
      cycles := by
        rw [unbegun]
        rfl
      whole := fun round member => absurd member List.not_mem_nil }
    have complete : Logged.Complete log := new.afterRuns history
    refine ⟨Noted.job_afterRuns Logged.matches_advance start history, complete.cycles,
      fun round member => ?_⟩
    obtain ⟨placed, once, answered⟩ := complete.whole round member
    exact ⟨placed, once, answered⟩
  · obtain ⟨begun, same⟩ :=
      (Dispatched.fresh built small reliable made order).afterRuns (.refl nd) history
    have counted := (Counted.fresh built small reliable made order).afterRuns history
    obtain ⟨told, shape⟩ := keeps_dispatched_runWithin nd budget _ ⟨begun, same⟩
    have counted := keeps_counted_runWithin budget _ counted
    rw [ran] at told shape counted
    have quiet := begun.owned.quiet_of_runWithin ran ended
    have each : ∀ group, ∃ stay : Stay, group < nd.groupCount →
        ∃ stages, stay.Tells after.trace group stages := by
      intro group
      by_cases inside : group < nd.groupCount
      · obtain ⟨stay, stages, tells⟩ := told.exists_stay quiet (shape.groupCount ▸ inside)
        exact ⟨stay, fun _ => ⟨stages, tells⟩⟩
      · exact ⟨⟨0, 0, 0⟩, fun inside' => absurd inside' inside⟩
    obtain ⟨stay, tells⟩ := Classical.skolem.mp each
    refine ⟨stay, tells, fun unit inside => ?_⟩
    have resident : ∃ u, after.device.cluster.units[unit]? = some u := by
      have before := (Device.getElem?_of_build built order unit _).mpr ⟨inside, rfl⟩
      have inside := (Array.getElem?_eq_some_iff.mp before).1
      have size := (keeps_size_runWithin _ budget _ (keeps_afterRuns (keeps_size_runWithin _)
        ⟨Owned.fresh built small reliable made order .keepAll, rfl⟩ history)).2
      rw [ran] at size
      exact ⟨_, Array.getElem?_eq_getElem (size ▸ inside)⟩
    obtain ⟨u, resident⟩ := resident
    have listed : answer.stats.busyCycles[unit]? = some u.stats.busyCycles := by
      rw [begun.owned.stats_of_runWithin ran]
      simp [Device.stats, Device.units, resident]
    have rests : u.isBusy = false := by
      rw [ComputeUnit.isBusy, quiet.group_eq_none counted.owned resident]
      rfl
    have whole : (u.stats.busyCycles : Int) = time unit after.trace := by
      have counted := counted.counted unit u resident
      rwa [rests, if_neg Bool.false_ne_true, Int.add_zero] at counted
    have each : ∀ group ∈ List.range after.launch.groupCount,
        time unit (ofGroup group after.trace) = ((if (stay group).unit = unit then
          (stay group).stop - (stay group).start + 1 else 0 : Nat) : Int) := by
      intro group member
      obtain ⟨stages, tells⟩ := tells group (shape.groupCount ▸ List.mem_range.mp member)
      exact tells.time_ofGroup unit
    have total : (u.stats.busyCycles : Int) = ((List.range after.launch.groupCount).map fun group =>
        if (stay group).unit = unit then (stay group).stop - (stay group).start + 1 else 0).sum := by
      rw [whole, time_eq_sum counted.known, List.map_congr_left each, Nat.cast_list_sum,
        List.map_map]
      rfl
    rw [listed, ← shape.groupCount]
    exact congrArg some (Int.ofNat_inj.mp total)

/-- On a device of two units and in a run that was interrupted after five cycles: three groups are
completed, and each unit has counted the cycles of its own. -/
theorem work_is_conserved_on_two_units :
    ∃ (device : Device SyntheticProgram FixedLatency Placer) (nd : NdRange),
      Device.build 0 { computeUnits := 2, streamCores := 2, wavefrontSize := 4 }
        (.ofKinds [.load, .alu]) { latency := 3 } PlacementPolicy.roundRobin.build = .ok device ∧
      NdRange.create 1 0 "kernel" ⟨24, 1, 1⟩ ⟨8, 1, 1⟩ 4 = .ok nd ∧
      ∃ answer after, (runWithin none).outcome
          ((Job.fresh device .reverse .keepAll nd).afterRuns [some 5]) = (.ok answer, after) ∧
        ∃ stay : Nat → Stay,
          (∀ group < 3, ∃ stages, (stay group).Tells after.trace group stages) ∧
          ∀ unit < 2, answer.stats.busyCycles[unit]? = some ((List.range 3).map fun group =>
            if (stay group).unit = unit then
              (stay group).stop - (stay group).start + 1 else 0).sum := by
  have built : Device.build 0 { computeUnits := 2, streamCores := 2, wavefrontSize := 4 }
      (SyntheticProgram.ofKinds [.load, .alu]) ({ latency := 3 } : FixedLatency)
      PlacementPolicy.roundRobin.build = .ok _ := rfl
  have made : NdRange.create 1 0 "kernel" ⟨24, 1, 1⟩ ⟨8, 1, 1⟩ 4 = .ok _ := rfl
  refine ⟨_, _, built, made, ?_⟩
  refine Attempt.exists_of_isOk ?_ ?_
  · decide +kernel
  intro answer after ran
  exact (work_is_conserved built (by decide) (PlacementPolicy.reliable_build _) made .reverse).2
    [some 5] none answer after ran (.inl rfl)

end Job

end Accelerator
