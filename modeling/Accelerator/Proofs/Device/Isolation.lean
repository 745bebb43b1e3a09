import Accelerator.Proofs.Device.Resumption
import Accelerator.Proofs.Device.SingleOwner

/-!
# Several launches on one device

Units know the groups they hold by number, and every launch has a group of number 0. Which launch a
group belongs to is recorded in one place, the launch that the device is at work on; a run of
another launch is refused for as long as that is so. This keeps launches apart as long as groups
come to the units through runs: then whatever a unit holds belongs to the launch that the device is
at work on (`launches_do_not_mix`). A driver may step units with any of its launches, and may
dispatch groups of the launch that is under way.

A dispatch outside of a run is not recorded, and then the launches do mix
(`dispatch_outside_of_a_run_mixes_launches`).
-/

namespace Accelerator

/-! ## Launches of which nothing runs -/

/-- No unit runs a group of the launch. -/
structure NdRange.Unowned (nd : NdRange) : Prop where
  consistent : nd.Consistent
  stopped : ∀ (id unit : Nat) (g : WorkGroup), nd.groups[id]? = some g → g.phase ≠ .running unit
  counted : nd.pending.length + nd.doneCount = nd.groupCount

/-! ## Launches in a row -/

section Row

variable {launches : List NdRange} {i j : Nat} {nd other : NdRange}

theorem NdRange.position_eq (distinct : (launches.map (·.launch)).Nodup)
    (found : launches[i]? = some nd) (found' : launches[j]? = some other)
    (same : nd.launch = other.launch) : i = j := by
  have inside : i < (launches.map (·.launch)).length := by
    rw [List.length_map]
    exact (List.getElem?_eq_some_iff.mp found).1
  refine (List.getElem?_inj inside distinct).mp ?_
  rw [List.getElem?_map, List.getElem?_map, found, found', Option.map_some, Option.map_some, same]

theorem NdRange.map_launch_set (found : launches[i]? = some nd) (same : other.launch = nd.launch) :
    (launches.set i other).map (·.launch) = launches.map (·.launch) := by
  have here : (launches.map (·.launch))[i]? = some other.launch := by
    rw [List.getElem?_map, found, same]
    rfl
  obtain ⟨inside, value⟩ := List.getElem?_eq_some_iff.mp here
  rw [List.map_set, ← value]
  exact List.set_getElem_self inside

end Row

/-! ## A launch and the device -/

namespace Job

variable {ι μ π : Type} [Placement π] {job : Job ι μ π}

theorem Owned.not_holds (owned : job.Owned) (free : job.device.busy.isEmpty = true)
    (unit group : Nat) : ¬ job.Holds unit group := by
  intro holds
  obtain ⟨busy, listed⟩ := owned.busyListed
  have member := (listed.member unit).mp ((owned.busy unit).mpr ⟨group, holds⟩)
  rw [listed.isEmpty_eq, List.isEmpty_iff] at free
  rw [free] at member
  cases member

theorem Owned.size_busy_of_isEmpty (owned : job.Owned) (free : job.device.busy.isEmpty = true) :
    job.device.busy.size = 0 := by
  obtain ⟨busy, listed⟩ := owned.busyListed
  rw [listed.isEmpty_eq, List.isEmpty_iff] at free
  rw [listed.size, free]
  rfl

/-- When no unit is busy nothing of the launch runs. -/
theorem Owned.unowned (owned : job.Owned) (free : job.device.busy.isEmpty = true) :
    job.launch.Unowned where
  consistent := owned.launch
  stopped id unit g found runs :=
    owned.not_holds free unit id ((owned.owners unit id).mpr ⟨g, found, runs⟩)
  counted := by
    have counted := owned.counted
    rw [owned.size_busy_of_isEmpty free] at counted
    omega

/-- Ownership has to do with a launch only as far as it says which groups run where, and counts
them. -/
theorem Owned.withLaunch (owned : job.Owned) {nd : NdRange} (consistent : nd.Consistent)
    (owners : ∀ unit group,
      job.Holds unit group ↔ ({ job with launch := nd } : Job ι μ π).Runs unit group)
    (counted : nd.pending.length + job.device.busy.size + nd.doneCount = nd.groupCount) :
    ({ job with launch := nd } : Job ι μ π).Owned where
  sound := owned.sound
  numbered := owned.numbered
  launch := consistent
  placement := owned.placement
  idleListed := owned.idleListed
  busyListed := owned.busyListed
  idleCapacity := owned.idleCapacity
  busyCapacity := owned.busyCapacity
  idle := owned.idle
  busy := owned.busy
  owners
  counted

/-- When no unit is busy the device can turn to any launch of which nothing runs. -/
theorem Owned.relaunch (owned : job.Owned) (free : job.device.busy.isEmpty = true) {nd : NdRange}
    (unowned : nd.Unowned) : ({ job with launch := nd } : Job ι μ π).Owned := by
  refine owned.withLaunch unowned.consistent (fun unit group => ?_) ?_
  · refine ⟨fun holds => absurd holds (owned.not_holds free unit group), fun runs => ?_⟩
    obtain ⟨g, found, running⟩ := runs
    exact absurd running (unowned.stopped group unit g found)
  · rw [owned.size_busy_of_isEmpty free]
    exact unowned.counted

variable [InstructionModel ι] [MemoryService μ]

/-! ## A device at work on one launch -/

/-- The device is at work on the launch, or it is free. -/
structure Serves (origin : NdRange) (job : Job ι μ π) : Prop where
  owned : job.Owned
  shape : job.launch.SameShape origin
  active : job.device.active = some { launch := origin.launch, id := origin.id } ∨
    job.device.active = none ∧ job.device.busy.isEmpty = true

variable {origin : NdRange}

/-- A run leaves the device at work on its launch, or free. -/
theorem Serves.drive (owned : job.Owned) (shape : job.launch.SameShape origin)
    (active : job.device.active = some { launch := origin.launch, id := origin.id })
    (room : Nat) (budget : Option Nat) : Serves origin ((Job.drive room budget).outcome job).2 := by
  induction room generalizing job budget
  all_goals
    obtain ⟨held, stands, done, -⟩ := owned.stands
    have held_shape := stands.sameRun.shape.trans shape
    have held_active := stands.sameRun.active.trans active
    rw [drive_outcome done]
    split
    next idle => exact ⟨stands.owned.congr rfl rfl rfl rfl, held_shape, .inr ⟨rfl, idle⟩⟩
    split
    next => exact ⟨stands.owned.congr rfl rfl rfl rfl, held_shape, .inl held_active⟩
  case zero => exact ⟨stands.owned, held_shape, .inl held_active⟩
  case succ room ih _ _ =>
    obtain ⟨next, sweeps, advanced⟩ := stands.owned.advance
    obtain ⟨owned', same, -⟩ := stands.owned.of_sweeps sweeps
    dsimp only
    rw [Attempt.outcome_bind_of_ok advanced]
    exact ih owned' (same.shape.trans held_shape) (same.active.trans held_active) _

theorem keeps_serves_runWithin (origin : NdRange) (budget : Option Nat) :
    Attempt.Keeps (Serves (ι := ι) (μ := μ) (π := π) origin) (runWithin budget) := by
  rintro job ⟨owned, shape, active⟩
  rcases job.begin_cases with ⟨e, refused⟩ | ⟨goes_on, under_way, here, -⟩ | ⟨begins, -, -⟩
  · rw [runWithin_outcome_of_error refused]
    exact ⟨owned, shape, active⟩
  · rw [runWithin_outcome goes_on]
    rcases active with active | ⟨none, -⟩
    · exact Serves.drive owned shape active _ _
    · cases none.symm.trans here
  · have admitted : job.admitted.Owned := owned.congr rfl rfl rfl rfl
    rw [runWithin_outcome begins]
    refine Serves.drive admitted shape ?_ _ _
    show some _ = some _
    rw [shape.launch, shape.id]

omit [Placement π] in
/-- A unit that is not busy does not work. -/
theorem stepUnit_outcome_of_idle {unit : Nat} (idle : job.device.busy.contains unit = false) :
    (stepUnit unit).outcome job =
      (.error (if job.device.cluster.units.size ≤ unit then .unknownUnit unit else .idleUnit unit),
        job) := by
  by_cases outside : job.device.cluster.units.size ≤ unit
  · simp [stepUnit, Attempt.outcome_bind, outside]
  · simp [stepUnit, Attempt.outcome_bind, outside, idle]

theorem keeps_serves_stepUnit (origin : NdRange) (unit : Nat) :
    Attempt.Keeps (Serves (ι := ι) (μ := μ) (π := π) origin) (stepUnit unit) := by
  rintro job ⟨owned, shape, active⟩
  cases busy : job.device.busy.contains unit with
  | true =>
      obtain ⟨after, works, stepped⟩ := owned.stepUnit busy
      rw [stepped]
      have same := works.sameRun
      refine ⟨works.owned owned, same.shape.trans shape, ?_⟩
      rcases active with active | ⟨-, free⟩
      · exact .inl (same.active.trans active)
      · obtain ⟨group, holds⟩ := (owned.busy unit).mp busy
        exact absurd holds (owned.not_holds free unit group)
  | false =>
      rw [stepUnit_outcome_of_idle busy]
      exact ⟨owned, shape, active⟩

omit [InstructionModel ι] [MemoryService μ] in
/-- A dispatch of the launch that is under way leaves the device at work on it. -/
theorem Serves.dispatch (owned : job.Owned) (shape : job.launch.SameShape origin)
    (active : job.device.active = some { launch := origin.launch, id := origin.id }) :
    Serves origin (Job.dispatch.outcome job).2 := by
  obtain ⟨count, after, dispatched, path, -⟩ := owned.dispatch
  obtain ⟨owned', same, -⟩ := owned.of_hands path
  rw [dispatched]
  exact ⟨owned', same.shape.trans shape, .inl (same.active.trans active)⟩

/-- The calls of a driver leave the device at work on the launch, or free. Only a dispatch has to be
one of a launch that is under way. -/
theorem Serves.perform (serves : Serves origin job) (call : Call)
    (allowed : call = .dispatch →
      job.device.active = some { launch := origin.launch, id := origin.id }) :
    Serves origin (call.perform.outcome job).2 := by
  open Attempt in
  cases call with
  | run =>
      exact ((keeps_serves_runWithin origin none).bind fun _ => keeps_pure _).bind
        (fun _ => keeps_pure ()) job serves
  | runFor cycles =>
      exact ((keeps_serves_runWithin origin (some cycles)).bind fun _ => keeps_pure ()) job serves
  | dispatch =>
      have after := Serves.dispatch serves.owned serves.shape (allowed rfl)
      rw [Call.perform, outcome_bind]
      rcases done : Job.dispatch.outcome job with ⟨e | count, next⟩ <;>
      · rw [done] at after
        exact after
  | stepUnit unit => exact keeps_serves_stepUnit origin unit job serves

/-! ## Calls with another launch -/

/-- A run of a launch other than the one under way is refused. -/
theorem runWithin_of_other {active : ActiveLaunch} (under_way : job.device.active = some active)
    (other : active.launch ≠ job.launch.launch) (budget : Option Nat) :
    (runWithin budget).outcome job = (.error (.launchInFlight active.id job.launch.id), job) :=
  runWithin_outcome_of_error (begin_of_in_flight under_way other) budget

omit [InstructionModel ι] [MemoryService μ] [Placement π] in
/-- A launch of which nothing runs takes no group for finished. -/
theorem complete_of_unowned (unowned : job.launch.Unowned) (unit group : Nat) :
    ((complete unit group).outcome job).2 = job := by
  rcases running : job.launch.runningGroup group with e | ⟨g, owner⟩
  · rw [complete, Attempt.outcome_get_bind, Attempt.outcome_bind, Attempt.outcome_ofExcept, running]
  · obtain ⟨found, runs⟩ := NdRange.runningGroup_eq_ok.mp running
    exact absurd runs (unowned.stopped group owner g found)

/-- A unit may be stepped with a launch of which nothing runs. It works, and when it finishes its
group that launch does not take it. -/
theorem Owned.stepUnit_of_unowned (owned : job.Owned) {nd : NdRange} (unowned : nd.Unowned)
    (unit : Nat) :
    ∃ device : Device ι μ π,
      ((Job.stepUnit unit).outcome { job with launch := nd }).2 = { device, launch := nd } ∧
      ({ job with device } : Job ι μ π).Owned ∧ device.active = job.device.active := by
  cases busy : job.device.busy.contains unit with
  | false =>
      refine ⟨job.device, ?_, owned, rfl⟩
      have busy' : ({ job with launch := nd } : Job ι μ π).device.busy.contains unit = false := busy
      rw [stepUnit_outcome_of_idle busy']
  | true =>
      obtain ⟨group, u, resident, held⟩ := (owned.busy unit).mp busy
      have inside : ¬ job.device.cluster.units.size ≤ unit :=
        Nat.not_le.mpr (Array.getElem?_eq_some_iff.mp resident).1
      let bench := (job.bench u).cycled u.order job.device.cycle group
      have cycle := cluster_stepUnit resident (owned.sound unit u resident) held
      have worked : (job.worked unit bench).Owned :=
        owned.worked resident (Bench.sound_cycled _ _ _ (owned.sound unit u resident))
          (Bench.cycled_id ..) (Bench.cycled_group ..)
      refine ⟨(job.worked unit bench).device, ?_, worked, rfl⟩
      simp only [Job.stepUnit, modifyDevice, Attempt.outcome_bind, Attempt.outcome_get, inside,
        if_false, busy, Bool.not_true, Bool.false_eq_true, Attempt.outcome_ofExcept, cycle,
        Attempt.outcome_modify, Bench.progress]
      split
      next => rfl
      next finished _ =>
        have unmoved : ∀ worked : Job ι μ π, worked.launch = nd →
            ((complete unit finished).outcome worked).2 = worked := by
          rintro worked rfl
          exact complete_of_unowned unowned unit finished
        exact unmoved { device := (job.worked unit bench).device, launch := nd } rfl

end Job

/-! ## A device and several launches -/

/-- A device, and the launches that a driver has for it. -/
structure Host (ι μ π : Type) where
  device : Device ι μ π
  launches : List NdRange

namespace Host

variable {ι μ π : Type}

/-- The device, asked to work on a launch. -/
def job (h : Host ι μ π) (nd : NdRange) : Job ι μ π := ⟨h.device, nd⟩

/-- The device is at work on the launch at a position. -/
def WorksOn (h : Host ι μ π) (i : Nat) : Prop :=
  ∃ nd, h.launches[i]? = some nd ∧
    h.device.active = some { launch := nd.launch, id := nd.id }

variable [InstructionModel ι] [MemoryService μ] [Placement π]

/-- Make a call with the launch at a position, whether it is refused or not. -/
def perform (h : Host ι μ π) (i : Nat) (call : Job.Call) : Host ι μ π :=
  match h.launches[i]? with
  | none => h
  | some nd =>
    let after := (call.perform.outcome (h.job nd)).2
    { device := after.device, launches := h.launches.set i after.launch }

/-- One more call is made. A dispatch outside of a run is one of the launch that is under way. -/
inductive Calls (h : Host ι μ π) : Host ι μ π → Prop
  | call (i : Nat) (call : Job.Call) (allowed : call = .dispatch → h.WorksOn i) :
    Calls h (h.perform i call)

/-! ## Launches stay apart -/

/-- The device is at work on one launch, which is the owner of all groups that the units hold, or on
none, and then the units hold none. -/
inductive Apart (h : Host ι μ π) : Prop
  | free (inactive : h.device.active = none) (rests : h.device.busy.isEmpty = true)
      (empty : ∀ (unit : Nat) (u : ComputeUnit), h.device.cluster.units[unit]? = some u →
        u.group = none)
      (owned : ∀ (i : Nat) (nd : NdRange), h.launches[i]? = some nd → (h.job nd).Owned)
  | works {i : Nat} {nd : NdRange} (found : h.launches[i]? = some nd)
      (active : h.device.active = some { launch := nd.launch, id := nd.id })
      (owned : (h.job nd).Owned)
      (others : ∀ (j : Nat) (other : NdRange), j ≠ i → h.launches[j]? = some other → other.Unowned)

/-- No two launches have the same number. -/
def Distinct (h : Host ι μ π) : Prop := (h.launches.map (·.launch)).Nodup

variable {h after : Host ι μ π} {i j : Nat} {nd other : NdRange}

omit [InstructionModel ι] [MemoryService μ] [Placement π] in
theorem Distinct.eq (distinct : h.Distinct) (found : h.launches[i]? = some nd)
    (found' : h.launches[j]? = some other) (same : nd.launch = other.launch) : i = j :=
  NdRange.position_eq distinct found found' same

omit [InstructionModel ι] [MemoryService μ] in
/-- A free device owns nothing of any launch. -/
theorem unowned_of_free (rests : h.device.busy.isEmpty = true)
    (owned : ∀ (i : Nat) (nd : NdRange), h.launches[i]? = some nd → (h.job nd).Owned)
    (found : h.launches[i]? = some nd) : nd.Unowned :=
  (owned i nd found).unowned rests

omit [InstructionModel ι] [MemoryService μ] in
/-- After a call with a launch that served, the launches are apart again. -/
theorem apart_of_serves {origin : NdRange} {job : Job ι μ π} (serves : job.Serves origin)
    (inside : i < h.launches.length)
    (others : ∀ (j : Nat) (other : NdRange), j ≠ i → h.launches[j]? = some other → other.Unowned) :
    ({ device := job.device, launches := h.launches.set i job.launch } : Host ι μ π).Apart := by
  have here : (h.launches.set i job.launch)[i]? = some job.launch := by
    rw [List.getElem?_set_self inside]
  have elsewhere : ∀ (j : Nat) (other : NdRange), j ≠ i →
      (h.launches.set i job.launch)[j]? = some other → other.Unowned := by
    intro j other differs found
    rw [List.getElem?_set_ne (Ne.symm differs)] at found
    exact others j other differs found
  rcases serves.active with active | ⟨inactive, rests⟩
  · refine .works here ?_ serves.owned elsewhere
    rw [serves.shape.launch, serves.shape.id]
    exact active
  · refine .free inactive rests (fun unit u resident => ?_) fun j other found => ?_
    · by_contra busy
      obtain ⟨group, held⟩ := Option.ne_none_iff_exists'.mp busy
      exact serves.owned.not_holds rests unit group ⟨u, resident, held⟩
    by_cases same : j = i
    · subst same
      cases here.symm.trans found
      exact serves.owned
    · exact serves.owned.relaunch rests (elsewhere j other same found)

/-- A call with a launch of which nothing runs is refused, or lets a unit work for the launch that is
under way. -/
theorem perform_of_other (active : h.device.active = some { launch := nd.launch, id := nd.id })
    (owned : (h.job nd).Owned) (unowned : other.Unowned) (differs : nd.launch ≠ other.launch)
    (call : Job.Call)
    (allowed : call = .dispatch →
      h.device.active = some { launch := other.launch, id := other.id }) :
    ∃ device : Device ι μ π, (call.perform.outcome (h.job other)).2 = { device, launch := other } ∧
      ({ device, launch := nd } : Job ι μ π).Owned ∧ device.active = h.device.active := by
  have under_way : (h.job other).device.active =
      some { launch := nd.launch, id := nd.id } := active
  have refused : ∀ budget : Option Nat, (Job.runWithin budget).outcome (h.job other) =
      (.error (.launchInFlight nd.id other.id), h.job other) :=
    Job.runWithin_of_other under_way differs
  cases call with
  | run =>
      refine ⟨h.device, ?_, owned, rfl⟩
      rw [Job.Call.perform, Attempt.outcome_bind, Job.run_outcome, refused]
      rfl
  | runFor cycles =>
      refine ⟨h.device, ?_, owned, rfl⟩
      rw [Job.Call.perform, Job.runFor, Attempt.outcome_bind_of_error (refused _)]
      rfl
  | dispatch =>
      have same := Option.some.inj (active.symm.trans (allowed rfl))
      exact absurd (congrArg ActiveLaunch.launch same) differs
  | stepUnit unit => exact owned.stepUnit_of_unowned unowned unit

theorem perform_eq (found : h.launches[i]? = some nd) (call : Job.Call) :
    h.perform i call = {
      device := (call.perform.outcome (h.job nd)).2.device
      launches := h.launches.set i (call.perform.outcome (h.job nd)).2.launch } := by
  rw [perform, found]

/-- A call with the launch that is under way, or with any launch if there is none. -/
theorem apart_of_own_call (found : h.launches[i]? = some nd) (serves : (h.job nd).Serves nd)
    (call : Job.Call)
    (allowed : call = .dispatch → h.device.active = some { launch := nd.launch, id := nd.id })
    (others : ∀ (j : Nat) (other : NdRange), j ≠ i → h.launches[j]? = some other → other.Unowned) :
    (h.perform i call).Apart ∧
      (h.perform i call).launches.map (·.launch) = h.launches.map (·.launch) := by
  have inside := (List.getElem?_eq_some_iff.mp found).1
  have served := serves.perform call allowed
  rw [perform_eq found]
  exact ⟨apart_of_serves served inside others, NdRange.map_launch_set found served.shape.launch⟩

/-- A call with another launch than the one that is under way changes no launch. -/
theorem apart_of_other_call (distinct : h.Distinct) (found : h.launches[i]? = some nd)
    (active : h.device.active = some { launch := nd.launch, id := nd.id })
    (owned : (h.job nd).Owned)
    (others : ∀ (j : Nat) (other : NdRange), j ≠ i → h.launches[j]? = some other → other.Unowned)
    (here : h.launches[j]? = some other) (differs : j ≠ i) (call : Job.Call)
    (allowed : call = .dispatch →
      h.device.active = some { launch := other.launch, id := other.id }) :
    (h.perform j call).Apart ∧ (h.perform j call).launches = h.launches := by
  have elsewhere : nd.launch ≠ other.launch := fun same =>
    differs (distinct.eq found here same).symm
  obtain ⟨device, done, owned', active'⟩ :=
    perform_of_other active owned (others j other differs here) elsewhere call allowed
  have unmoved : h.launches.set j other = h.launches := by
    obtain ⟨inside, same⟩ := List.getElem?_eq_some_iff.mp here
    rw [← same]
    exact List.set_getElem_self inside
  rw [perform_eq here, done]
  dsimp only
  rw [unmoved]
  exact ⟨.works found (active'.trans active) owned' others, rfl⟩

/-- No call brings launches together, and none changes their numbers. -/
theorem Calls.apart (calls : h.Calls after) (distinct : h.Distinct) (apart : h.Apart) :
    after.Apart ∧ after.launches.map (·.launch) = h.launches.map (·.launch) := by
  cases calls with
  | call i call allowed =>
      rcases found : h.launches[i]? with _ | nd
      · rw [perform, found]
        exact ⟨apart, rfl⟩
      have known : call = .dispatch →
          h.device.active = some { launch := nd.launch, id := nd.id } := by
        intro isDispatch
        obtain ⟨nd', found', active⟩ := allowed isDispatch
        cases found.symm.trans found'
        exact active
      cases apart with
      | free inactive rests _ owned =>
          exact apart_of_own_call found ⟨owned i nd found, .refl nd, .inr ⟨inactive, rests⟩⟩ call
            known fun j other _ here => unowned_of_free rests owned here
      | @works k owner here active owned others =>
          by_cases same : i = k
          · subst same
            cases found.symm.trans here
            exact apart_of_own_call found ⟨owned, .refl nd, .inl active⟩ call known others
          · obtain ⟨apart, unmoved⟩ :=
              apart_of_other_call distinct here active owned others found same call known
            exact ⟨apart, by rw [unmoved]⟩

/-- Whatever calls are made, launches stay apart. -/
theorem apart_of_calls (path : Relation.ReflTransGen Calls h after) (distinct : h.Distinct)
    (apart : h.Apart) : after.Apart ∧ after.Distinct := by
  induction path with
  | refl => exact ⟨apart, distinct⟩
  | tail _ calls ih =>
      obtain ⟨apart', numbers⟩ := calls.apart ih.2 ih.1
      refine ⟨apart', ?_⟩
      rw [Distinct, numbers]
      exact ih.2

/-! ## Every history -/

omit [InstructionModel ι] [MemoryService μ] in
/-- A new device has nothing of any new launch. -/
theorem apart_of_new {id : Nat} {config : DeviceConfig} {isa : ι} {memory : μ} {placement : π}
    {device : Device ι μ π} (built : Device.build id config isa memory placement = .ok device)
    (small : config.wavefrontSize < countBound) (reliable : Placement.Reliable placement)
    (order : StageOrder) (sink : Sink) {launches : List NdRange}
    (made : ∀ nd ∈ launches, ∃ launch number kernelName globalSize localSize wavefrontSize,
      NdRange.create launch number kernelName globalSize localSize wavefrontSize = .ok nd) :
    ({ device := (device.withOrder order).withSink sink, launches } : Host ι μ π).Apart := by
  refine .free ?_ ?_ (fun unit u resident => ?_) fun i nd found => ?_
  · obtain ⟨-, rfl⟩ := Device.build_eq_ok built
    rfl
  · obtain ⟨-, rfl⟩ := Device.build_eq_ok built
    rfl
  · obtain ⟨-, rfl⟩ := (Device.getElem?_of_build built order unit u).mp resident
    rfl
  · obtain ⟨_, _, _, _, _, _, made⟩ := made nd (List.mem_of_getElem? found)
    exact Job.Owned.fresh built small reliable made order sink

/-- A new device and new launches of different numbers, after any calls with any of them, when groups
are dispatched by runs, or for the launch that is under way. Every group that a unit holds belongs to
one launch, which remembers it as running there; a run of any other launch is then refused, and
changes neither the device nor that launch. So a run that is let in finds on the units groups of its
own launch only. -/
theorem launches_do_not_mix {id : Nat} {config : DeviceConfig} {isa : ι} {memory : μ}
    {placement : π} {device : Device ι μ π}
    (built : Device.build id config isa memory placement = .ok device)
    (small : config.wavefrontSize < countBound) (reliable : Placement.Reliable placement)
    (order : StageOrder) (sink : Sink) {launches : List NdRange}
    (made : ∀ nd ∈ launches, ∃ launch number kernelName globalSize localSize wavefrontSize,
      NdRange.create launch number kernelName globalSize localSize wavefrontSize = .ok nd)
    (distinct : (launches.map (·.launch)).Nodup)
    (path : Relation.ReflTransGen Calls
      { device := (device.withOrder order).withSink sink, launches } h) :
    (∀ (unit group : Nat) (u : ComputeUnit), h.device.cluster.units[unit]? = some u →
      u.group = some group → ∃ (i : Nat) (nd : NdRange), h.launches[i]? = some nd ∧
        (h.job nd).Runs unit group ∧ ∀ (j : Nat) (other : NdRange), j ≠ i →
          h.launches[j]? = some other → ∀ budget : Option Nat,
            (Job.runWithin budget).outcome (h.job other) =
              (.error (.launchInFlight nd.id other.id), h.job other)) ∧
    ∀ (j : Nat) (nd : NdRange), h.launches[j]? = some nd →
      (∃ e, ∀ budget : Option Nat, (Job.runWithin budget).outcome (h.job nd) =
        (.error e, h.job nd)) ∨
      ∀ unit group, (h.job nd).Holds unit group ↔ (h.job nd).Runs unit group := by
  have new := apart_of_new built small reliable order sink made
  obtain ⟨apart, distinct'⟩ := apart_of_calls path distinct new
  cases apart with
  | free _ rests empty owned =>
      refine ⟨fun unit group u resident held => ?_,
        fun j nd found => .inr (owned j nd found).owners⟩
      cases (empty unit u resident).symm.trans held
  | @works i owner found active owned others =>
      have refused : ∀ (j : Nat) (other : NdRange), j ≠ i → h.launches[j]? = some other →
          ∀ budget : Option Nat, (Job.runWithin budget).outcome (h.job other) =
            (.error (.launchInFlight owner.id other.id), h.job other) := by
        intro j other differs found'
        have under_way : (h.job other).device.active =
            some { launch := owner.launch, id := owner.id } := active
        exact Job.runWithin_of_other under_way fun same =>
          differs (distinct'.eq found found' same).symm
      refine ⟨fun unit group u resident held => ?_, fun j nd found' => ?_⟩
      · exact ⟨i, owner, found, (owned.owners unit group).mp ⟨u, resident, held⟩, refused⟩
      · by_cases same : j = i
        · subst same
          cases found.symm.trans found'
          exact .inr owned.owners
        · exact .inl ⟨_, refused j nd same found'⟩

/-- Two launches with a group each: while the first is interrupted the second is refused. -/
theorem launches_do_not_mix_on_two_units :
    ∃ (device : Device SyntheticProgram FixedLatency Placer) (first second : NdRange),
      Device.build 0 { computeUnits := 2, streamCores := 2, wavefrontSize := 4 }
        (.ofKinds [.load, .alu]) { latency := 3 } PlacementPolicy.roundRobin.build = .ok device ∧
      NdRange.create 1 0 "first" ⟨8, 1, 1⟩ ⟨8, 1, 1⟩ 4 = .ok first ∧
      NdRange.create 2 0 "second" ⟨8, 1, 1⟩ ⟨8, 1, 1⟩ 4 = .ok second ∧
      let start : Host SyntheticProgram FixedLatency Placer :=
        { device := (device.withOrder .reverse).withSink .discard, launches := [first, second] }
      let h := start.perform 0 (.runFor 1)
      ∀ (unit group : Nat) (u : ComputeUnit), h.device.cluster.units[unit]? = some u →
        u.group = some group → ∃ (i : Nat) (nd : NdRange), h.launches[i]? = some nd ∧
          (h.job nd).Runs unit group ∧ ∀ (j : Nat) (other : NdRange), j ≠ i →
            h.launches[j]? = some other → ∀ budget : Option Nat,
              (Job.runWithin budget).outcome (h.job other) =
                (.error (.launchInFlight nd.id other.id), h.job other) := by
  have built : Device.build 0 { computeUnits := 2, streamCores := 2, wavefrontSize := 4 }
      (SyntheticProgram.ofKinds [.load, .alu]) ({ latency := 3 } : FixedLatency)
      PlacementPolicy.roundRobin.build = .ok _ := rfl
  have first : NdRange.create 1 0 "first" ⟨8, 1, 1⟩ ⟨8, 1, 1⟩ 4 = .ok _ := rfl
  have second : NdRange.create 2 0 "second" ⟨8, 1, 1⟩ ⟨8, 1, 1⟩ 4 = .ok _ := rfl
  refine ⟨_, _, _, built, first, second, ?_⟩
  refine (launches_do_not_mix built (by decide) (PlacementPolicy.reliable_build _) .reverse .discard
    ?_ (by decide) (.single (.call 0 (.runFor 1) nofun))).1
  intro nd member
  simp only [List.mem_cons, List.not_mem_nil, or_false] at member
  rcases member with rfl | rfl
  · exact ⟨_, _, _, _, _, _, first⟩
  · exact ⟨_, _, _, _, _, _, second⟩

/-- A group of one launch is dispatched outside of a run, and then another launch is run. The run is
let in, the first unit finishes the group of the first launch, and the second launch takes its own
group of that number for finished, while the second unit still holds it. -/
theorem dispatch_outside_of_a_run_mixes_launches :
    ∃ (device : Device SyntheticProgram FixedLatency Placer) (first second : NdRange),
      Device.build 0 { computeUnits := 2, streamCores := 2, wavefrontSize := 2 }
        (.ofKinds []) { latency := 3 } PlacementPolicy.firstIdle.build = .ok device ∧
      NdRange.create 1 0 "first" ⟨2, 1, 1⟩ ⟨2, 1, 1⟩ 2 = .ok first ∧
      NdRange.create 2 0 "second" ⟨2, 1, 1⟩ ⟨2, 1, 1⟩ 2 = .ok second ∧
      let handed := (Job.dispatch.outcome ({ device, launch := first } : Job _ _ _)).2
      let ran := Job.run.outcome ({ handed with launch := second } : Job _ _ _)
      handed.device.cluster.units[0]?.map (·.group) = some (some 0) ∧
        handed.launch.groups[0]?.map (·.phase) = some (.running 0) ∧
        ran.1 = .error (.invalidTransition 0 .done .done) ∧
        ran.2.launch.groups[0]?.map (·.phase) = some (.done 1) ∧
        ran.2.device.cluster.units[0]?.map (·.group) = some none ∧
        ran.2.device.cluster.units[1]?.map (·.group) = some (some 0) := by
  have built : Device.build 0 { computeUnits := 2, streamCores := 2, wavefrontSize := 2 }
      (SyntheticProgram.ofKinds []) ({ latency := 3 } : FixedLatency)
      PlacementPolicy.firstIdle.build = .ok _ := rfl
  have first : NdRange.create 1 0 "first" ⟨2, 1, 1⟩ ⟨2, 1, 1⟩ 2 = .ok _ := rfl
  have second : NdRange.create 2 0 "second" ⟨2, 1, 1⟩ ⟨2, 1, 1⟩ 2 = .ok _ := rfl
  exact ⟨_, _, _, built, first, second, by decide +kernel⟩

end Host

end Accelerator
