import Accelerator.Proofs.Device.Fresh
import Accelerator.Proofs.Device.Operations

/-!
# Dispatch that is refused

Dispatch takes a unit out of the idle ones before it asks the launch for a group, and puts it among
the busy ones after the launch has given one. The launch can refuse: whoever holds it may mark a
group that is still in the queue, and such a group cannot start to run. The unit then belongs to
neither set, and nothing ever brings it back.

`Job.Parted` describes the two sets, with at most one unit lost to both. A dispatch loses no unit as
long as the queue holds waiting groups only, and one unit at most otherwise (`Parted.dispatchUpTo`).
-/

namespace Accelerator

/-! ## Queues of waiting groups -/

namespace NdRange

/-- Every group stands at its number, and those in the queue wait and are in it once. -/
structure QueueWaits (nd : NdRange) : Prop where
  named : ∀ (id : Nat) (g : WorkGroup), nd.groups[id]? = some g → g.id = id
  distinct : nd.pending.Nodup
  waiting : ∀ id ∈ nd.pending, ∃ g, nd.groups[id]? = some g ∧ g.phase = .pending

variable {nd after : NdRange} {id unit : Nat}

theorem Consistent.queueWaits (consistent : nd.Consistent) : nd.QueueWaits :=
  ⟨consistent.named, consistent.distinct, fun id => (consistent.waiting id).mp⟩

theorem QueueWaits.takeNextPending (queue : nd.QueueWaits)
    (taken : nd.takeNextPending = .ok (id, after)) : after.QueueWaits ∧ id ∉ after.pending := by
  unfold NdRange.takeNextPending at taken
  split at taken
  next first rest pending =>
    cases taken
    obtain ⟨named, distinct, waiting⟩ := queue
    rw [pending] at distinct waiting
    exact ⟨⟨named, (List.nodup_cons.mp distinct).2,
      fun other member => waiting other (List.mem_cons_of_mem _ member)⟩,
      (List.nodup_cons.mp distinct).1⟩
  next => cases taken

/-- A group that is not in the queue can take on any phase. -/
theorem QueueWaits.setPhase (queue : nd.QueueWaits) {g : WorkGroup}
    (found : nd.groups[g.id]? = some g) (phase : Phase) (absent : g.id ∉ nd.pending) :
    (nd.setPhase g phase).QueueWaits where
  named other h here := by
    rw [getElem?_setPhase found] at here
    split at here
    next same =>
      cases here
      exact same.symm
    next => exact queue.named other h here
  distinct := queue.distinct
  waiting other member := by
    obtain ⟨h, there, waits⟩ := queue.waiting other member
    refine ⟨h, ?_, waits⟩
    rw [getElem?_setPhase found, if_neg, there]
    rintro rfl
    exact absent member

/-- A group that was taken off the queue can be marked by hand. -/
theorem QueueWaits.markRunning (queue : nd.QueueWaits) (absent : id ∉ nd.pending)
    (marked : nd.markRunning id unit = .ok after) : after.QueueWaits := by
  rcases waiting : nd.waitingGroup id with e | g
  · rw [NdRange.markRunning, waiting] at marked
    cases marked
  · rw [NdRange.markRunning, waiting] at marked
    cases marked
    have found := (waitingGroup_eq_ok.mp waiting).1
    cases queue.named id g found
    exact queue.setPhase found _ absent

/-- A group that is done did run, so that it was not in the queue. -/
theorem QueueWaits.markDone (queue : nd.QueueWaits) (marked : nd.markDone id = .ok after) :
    after.QueueWaits := by
  rcases running : nd.runningGroup id with e | ⟨g, unit⟩
  · rw [NdRange.markDone, running] at marked
    cases marked
  · rw [NdRange.markDone, running] at marked
    cases marked
    obtain ⟨found, runs⟩ := runningGroup_eq_ok.mp running
    cases queue.named id g found
    have absent : g.id ∉ nd.pending := by
      intro member
      obtain ⟨h, there, waits⟩ := queue.waiting _ member
      cases found.symm.trans there
      cases runs.symm.trans waits
    have done := queue.setPhase found (.done unit) absent
    exact ⟨done.named, done.distinct, done.waiting⟩

/-- What becomes of a launch in the hands of someone who marks no group that is in the queue. -/
inductive Handled (origin : NdRange) : NdRange → Prop
  | new : Handled origin origin
  | take {nd after : NdRange} {id : Nat} (handled : Handled origin nd)
      (taken : nd.takeNextPending = .ok (id, after)) : Handled origin after
  | run {nd after : NdRange} {id unit : Nat} (handled : Handled origin nd)
      (absent : id ∉ nd.pending) (marked : nd.markRunning id unit = .ok after) :
    Handled origin after
  | done {nd after : NdRange} {id : Nat} (handled : Handled origin nd)
      (marked : nd.markDone id = .ok after) : Handled origin after

theorem Handled.queueWaits {origin : NdRange} (handled : Handled origin nd)
    (new : origin.Consistent) : nd.QueueWaits := by
  induction handled with
  | new => exact new.queueWaits
  | take _ taken ih => exact (ih.takeNextPending taken).1
  | run _ absent marked ih => exact ih.markRunning absent marked
  | done _ marked ih => exact ih.markDone marked

end NdRange

namespace Job

variable {ι μ π : Type}

/-! ## The two sets -/

/-- Each unit is idle or busy, but not both, and busy exactly if it holds a work-group; with the
exception of a lost one, which holds no group and belongs to neither set. -/
structure Parted (job : Job ι μ π) (lost : Option Nat) : Prop where
  idleListed : ∃ l, job.device.idle.Lists l
  busyListed : ∃ l, job.device.busy.Lists l
  busyCapacity : job.device.busy.capacity = job.device.cluster.units.size
  idle : ∀ unit, job.device.idle.contains unit = true ↔ job.Rests unit ∧ lost ≠ some unit
  busy : ∀ unit, job.device.busy.contains unit = true ↔ ∃ group, job.Holds unit group
  lostRests : ∀ unit, lost = some unit → job.Rests unit

variable {job after : Job ι μ π} {unit : Nat}

theorem Owned.parted [Placement π] (owned : job.Owned) : job.Parted none where
  idleListed := owned.idleListed
  busyListed := owned.busyListed
  busyCapacity := owned.busyCapacity
  idle unit := by simpa using owned.idle unit
  busy := owned.busy
  lostRests _ none := by cases none

/-- The launch has nothing to do with the two sets, nor have the other parts of the device. -/
theorem Parted.congr {lost : Option Nat} (parted : job.Parted lost)
    (units : after.device.cluster.units = job.device.cluster.units)
    (idle : after.device.idle = job.device.idle) (busy : after.device.busy = job.device.busy) :
    after.Parted lost where
  idleListed := by simpa only [idle] using parted.idleListed
  busyListed := by simpa only [busy] using parted.busyListed
  busyCapacity := by simpa only [busy, units] using parted.busyCapacity
  idle := by simpa only [idle, Rests, units] using parted.idle
  busy := by simpa only [busy, Holds, units] using parted.busy
  lostRests := by simpa only [Rests, units] using parted.lostRests

/-- In a partition each unit is in exactly one of the two sets. -/
theorem Parted.exactly_one (parted : job.Parted none)
    (inside : unit < job.device.cluster.units.size) :
    job.device.idle.contains unit = !job.device.busy.contains unit := by
  have idle := parted.idle unit
  have busy := parted.busy unit
  obtain ⟨u, found⟩ : ∃ u, job.device.cluster.units[unit]? = some u :=
    ⟨_, Array.getElem?_eq_getElem inside⟩
  rcases held : u.group with _ | group
  · have rests : job.Rests unit := ⟨u, found, held⟩
    have notBusy : job.device.busy.contains unit = false := by
      rw [← Bool.not_eq_true, busy]
      exact fun ⟨group, holds⟩ => rests.not_holds holds
    rw [notBusy, idle.mpr ⟨rests, nofun⟩]
    rfl
  · have holds : job.Holds unit group := ⟨u, found, held⟩
    have notIdle : job.device.idle.contains unit = false := by
      rw [← Bool.not_eq_true, idle]
      exact fun rests => rests.1.not_holds holds
    rw [notIdle, busy.mpr ⟨group, holds⟩]
    rfl

/-- A lost unit is in neither set. -/
theorem Parted.in_neither (parted : job.Parted (some unit)) :
    job.device.idle.contains unit = false ∧ job.device.busy.contains unit = false := by
  constructor
  · rw [← Bool.not_eq_true, parted.idle]
    exact fun given => given.2 rfl
  · rw [← Bool.not_eq_true, parted.busy]
    exact fun ⟨group, holds⟩ => (parted.lostRests unit rfl).not_holds holds

/-! ## The steps of a dispatch -/

/-- An idle unit is taken out, and belongs nowhere for the time being. -/
theorem Parted.reserve (parted : job.Parted none) (isIdle : job.device.idle.contains unit = true) :
    ({ job with device := { job.device with
      idle := job.device.idle.unlink unit } } : Job ι μ π).Parted (some unit) := by
  obtain ⟨idle, listed⟩ := parted.idleListed
  have member : unit ∈ idle := (listed.member unit).mp isIdle
  have listed' := listed.unlink_erase member
  refine ⟨⟨_, listed'⟩, parted.busyListed, parted.busyCapacity, fun other => ?_, parted.busy,
    fun other same => ?_⟩
  · refine (listed'.member other).trans ?_
    rw [listed.distinct.mem_erase_iff, ← listed.member, parted.idle]
    show other ≠ unit ∧ job.Rests other ∧ _ ↔ job.Rests other ∧ _
    constructor
    · exact fun ⟨differs, rests, _⟩ => ⟨rests, fun same => differs (Option.some.inj same).symm⟩
    · exact fun ⟨rests, differs⟩ =>
        ⟨fun same => differs (congrArg some same.symm), rests, nofun⟩
  · cases same
    exact ((parted.idle unit).mp isIdle).1

/-- The unit `u`, whose number is `unit`, gets its group. -/
def loading (job : Job ι μ π) (unit : Nat) (u : ComputeUnit) (group : Nat)
    (wavefronts : List Wavefront) : Job ι μ π :=
  { job with device := { job.device with
      cluster := job.device.cluster.setUnit unit (u.loaded group wavefronts)
      busy := job.device.busy.push unit
      sink := job.device.sink.record
        { cycle := job.device.cycle + 1, unit, group, action := .run } } }

/-- A unit that has its group is busy. -/
theorem Parted.loading (parted : job.Parted (some unit)) {u : ComputeUnit}
    (resident : job.device.cluster.units[unit]? = some u) (group : Nat)
    (wavefronts : List Wavefront) : (job.loading unit u group wavefronts).Parted none := by
  have units : ∀ other, (job.loading unit u group wavefronts).device.cluster.units[other]? =
      if other = unit then some (u.loaded group wavefronts) else job.device.cluster.units[other]? :=
    getElem?_setUnit resident
  obtain ⟨busy, listed⟩ := parted.busyListed
  have inside : unit < job.device.busy.capacity := by
    rw [parted.busyCapacity]
    exact (Array.getElem?_eq_some_iff.mp resident).1
  have stranger : unit ∉ busy := by
    intro member
    have isBusy := (listed.member unit).mpr member
    rw [parted.in_neither.2] at isBusy
    cases isBusy
  have listed' := listed.push inside stranger
  refine ⟨parted.idleListed, ⟨_, listed'⟩, ?_, fun other => ?_, fun other => ?_,
    fun _ none => by cases none⟩
  · refine UnitSet.capacity_push.trans (parted.busyCapacity.trans ?_)
    exact Array.size_setIfInBounds.symm
  · refine (parted.idle other).trans ?_
    rw [rests_iff units]
    by_cases same : other = unit
    · simp [same, ComputeUnit.loaded]
    · simp [same, Ne.symm same]
  · refine (listed'.member other).trans ?_
    rw [List.mem_append, List.mem_singleton, ← listed.member, parted.busy]
    simp only [holds_iff units]
    by_cases same : other = unit
    · simp [same, ComputeUnit.loaded]
    · simp [same]

theorem reserveUnit_outcome_of_stranger (notIdle : job.device.idle.contains unit = false) :
    (reserveUnit unit).outcome job = (.error (.unknownUnit unit), job) := by
  rw [reserveUnit, Attempt.outcome_get_bind, Attempt.outcome_ite, notIdle]
  rfl

/-- The launch gives a group or refuses, and the device does not notice. -/
theorem reserveGroup_cases (job : Job ι μ π) (unit : Nat) :
    ∃ answer launch, (reserveGroup unit).outcome job = (answer, { job with launch }) := by
  unfold reserveGroup
  rw [Attempt.outcome_get_bind, Attempt.outcome_bind, Attempt.outcome_ofExcept]
  rcases job.launch.takeNextPending with e | ⟨group, launch⟩
  · exact ⟨.error e, job.launch, rfl⟩
  · dsimp only
    rw [modifyLaunch, Attempt.outcome_bind, Attempt.outcome_modify]
    dsimp only
    rw [Attempt.outcome_get_bind, Attempt.outcome_bind, Attempt.outcome_ofExcept]
    dsimp only
    rcases launch.waitingGroup group with e | waiting
    · exact ⟨.error e, launch, rfl⟩
    · exact ⟨.ok group, launch.start waiting unit, rfl⟩

theorem assignGroup_cases {u : ComputeUnit} (resident : job.device.cluster.units[unit]? = some u)
    (free : u.group = none) (group : Nat) :
    (∃ e, (assignGroup unit group).outcome job = (.error e, job)) ∨
      ∃ wavefronts, (assignGroup unit group).outcome job =
        (.ok (), job.loading unit u group wavefronts) := by
  rcases listed : job.launch.wavefrontsOf group with e | wavefronts
  · left
    refine ⟨e, ?_⟩
    rw [assignGroup, Attempt.outcome_get_bind, Attempt.outcome_bind, Attempt.outcome_ofExcept,
      listed]
  · exact .inr ⟨wavefronts, assignGroup_outcome listed resident free⟩

/-! ## One dispatch -/

/-- No unit is lost, and a refusal is due to the placement alone, which has picked a unit that is
not idle. -/
def Intact {α : Type} (result : Except Error α × Job ι μ π) : Prop :=
  result.2.Parted none ∧ ∀ e, result.1 = .error e → ∃ unit, e = .unknownUnit unit

theorem Parted.intact {α : Type} (parted : job.Parted none) (answer : α) :
    Intact (.ok answer, job) :=
  ⟨parted, fun _ refused => by cases refused⟩

/-- A refusal has cost one unit. -/
def LosesOne {α : Type} (result : Except Error α × Job ι μ π) : Prop :=
  ∃ unit e, result.1 = .error e ∧ result.2.Parted (some unit)

/-- A unit can be lost only for the given reason. -/
def SafeUnless {α : Type} (reason : Prop) (result : Except Error α × Job ι μ π) : Prop :=
  Intact result ∨ LosesOne result ∧ reason

/-- What comes second matters only if the first has lost nothing. -/
theorem SafeUnless.bind {α β : Type} {reason : Prop} {first : Attempt (Job ι μ π) α}
    {second : α → Attempt (Job ι μ π) β} (before : SafeUnless reason (first.outcome job))
    (after : ∀ a next, first.outcome job = (.ok a, next) → next.Parted none →
      SafeUnless reason ((second a).outcome next)) :
    SafeUnless reason ((first >>= second).outcome job) := by
  rcases done : first.outcome job with ⟨e | a, next⟩
  · rw [done] at before
    rw [Attempt.outcome_bind_of_error done]
    rcases before with ⟨kept, mistake⟩ | ⟨⟨unit, _, _, lost⟩, why⟩
    · exact .inl ⟨kept, fun e' same => mistake e' (congrArg _ (Except.error.inj same))⟩
    · exact .inr ⟨⟨unit, e, rfl, lost⟩, why⟩
  · rw [done] at before
    rw [Attempt.outcome_bind_of_ok done]
    rcases before with ⟨kept, -⟩ | ⟨⟨_, _, refused, -⟩, -⟩
    · exact after a next done kept
    · cases refused

variable [Placement π]

/-- If the placement picks no unit, or one that is not idle, no unit is lost and the launch is not
asked. -/
theorem Parted.dispatchOne_cases (parted : job.Parted none) :
    (Intact (Job.dispatchOne.outcome job) ∧
        (Job.dispatchOne.outcome job).2.launch = job.launch) ∨
      ∃ unit placement,
        Placement.pick job.device.placement job.device.idle = (some unit, placement) ∧
          job.device.idle.contains unit = true := by
  rcases picked : Placement.pick job.device.placement job.device.idle with ⟨choice, placement⟩
  have kept : ({ job with device := { job.device with placement } } : Job ι μ π).Parted none :=
    parted.congr rfl rfl rfl
  rcases choice with _ | unit
  · have nowhere : Job.dispatchOne.outcome job =
        (.ok false, { job with device := { job.device with placement } }) := by
      rw [Job.dispatchOne, Attempt.outcome_bind, pickUnit_outcome, picked]
      rfl
    rw [nowhere]
    exact .inl ⟨kept.intact false, rfl⟩
  cases isIdle : job.device.idle.contains unit with
  | true => exact .inr ⟨unit, placement, rfl, isIdle⟩
  | false =>
      have stranger : Job.dispatchOne.outcome job =
          (.error (.unknownUnit unit), { job with device := { job.device with placement } }) := by
        rw [Job.dispatchOne, Attempt.outcome_bind, pickUnit_outcome, picked]
        exact Attempt.outcome_bind_of_error (reserveUnit_outcome_of_stranger isIdle)
      rw [stranger]
      exact .inl ⟨⟨kept, fun e refused => ⟨unit, (Except.error.inj refused).symm⟩⟩, rfl⟩

/-- One dispatch loses no unit, or the one that the placement has picked. -/
theorem Parted.dispatchOne (parted : job.Parted none) :
    Intact (Job.dispatchOne.outcome job) ∨ LosesOne (Job.dispatchOne.outcome job) := by
  rcases parted.dispatchOne_cases with ⟨intact, -⟩ | ⟨unit, placement, picked, isIdle⟩
  · exact .inl intact
  · let reserved : Job ι μ π := { job with device := { job.device with
      placement, idle := job.device.idle.unlink unit } }
    have apart : reserved.Parted (some unit) := (parted.reserve isIdle).congr rfl rfl rfl
    obtain ⟨answer, launch, queue⟩ := reserved.reserveGroup_cases unit
    have queued : ({ reserved with launch } : Job ι μ π).Parted (some unit) :=
      apart.congr rfl rfl rfl
    have choose : pickUnit.outcome job =
        (.ok (some unit), { job with device := { job.device with placement } }) := by
      rw [pickUnit_outcome, picked]
    have reserve : (reserveUnit unit).outcome { job with device := { job.device with placement } } =
        (.ok (), reserved) := reserveUnit_outcome isIdle
    rw [Job.dispatchOne, Attempt.outcome_bind_of_ok choose]
    dsimp only
    rw [Attempt.outcome_bind_of_ok reserve]
    rcases answer with e | group
    · rw [Attempt.outcome_bind_of_error queue]
      exact .inr ⟨unit, e, rfl, queued⟩
    · rw [Attempt.outcome_bind_of_ok queue]
      obtain ⟨u, resident, free⟩ := queued.lostRests unit rfl
      rcases assignGroup_cases resident free group with ⟨e, refused⟩ | ⟨wavefronts, assigned⟩
      · rw [Attempt.outcome_bind_of_error refused]
        exact .inr ⟨unit, e, rfl, queued⟩
      · rw [Attempt.outcome_bind_of_ok assigned]
        exact .inl ((queued.loading resident group wavefronts).intact true)

omit [Placement π] in
/-- A queue of waiting groups does not refuse its first one. -/
theorem reserveGroup_of_waits (queue : job.launch.QueueWaits)
    (pending : job.launch.hasPending = true) (unit : Nat) :
    ∃ g rest wavefronts, job.launch.pending = g.id :: rest ∧
      job.launch.groups[g.id]? = some g ∧ g.phase = .pending ∧
      job.launch.wavefrontsOf g.id = .ok wavefronts ∧
      (({ job.launch with pending := rest } : NdRange).start g unit).QueueWaits := by
  rcases queued : job.launch.pending with _ | ⟨id, rest⟩
  · simp [NdRange.hasPending, queued] at pending
  · obtain ⟨g, found, waits⟩ := queue.waiting id (by simp [queued])
    cases queue.named id g found
    have taken : job.launch.takeNextPending = .ok (g.id, { job.launch with pending := rest }) := by
      rw [NdRange.takeNextPending, queued]
      rfl
    obtain ⟨remaining, absent⟩ := queue.takeNextPending taken
    have listed := NdRange.wavefrontsOf_of_found found
    exact ⟨g, rest, _, rfl, found, waits, listed, remaining.setPhase found _ absent⟩

omit [Placement π] in
theorem Parted.handed (parted : job.Parted none) (isIdle : job.device.idle.contains unit = true)
    {u : ComputeUnit} (resident : job.device.cluster.units[unit]? = some u) (placement : π)
    (g : WorkGroup) (rest : List Nat) (wavefronts : List Wavefront) :
    (job.handed placement unit u g rest wavefronts).Parted none := by
  let reserved : Job ι μ π := {
    device := { job.device with placement, idle := job.device.idle.unlink unit }
    launch := ({ job.launch with pending := rest } : NdRange).start g unit }
  have apart : reserved.Parted (some unit) := (parted.reserve isIdle).congr rfl rfl rfl
  exact apart.loading resident g.id wavefronts

/-- With a queue of waiting groups a dispatch loses no unit, and the queue remains one. -/
theorem Parted.dispatchOne_of_waits (parted : job.Parted none) (queue : job.launch.QueueWaits)
    (pending : job.launch.hasPending = true) :
    Intact (Job.dispatchOne.outcome job) ∧
      (Job.dispatchOne.outcome job).2.launch.QueueWaits := by
  rcases parted.dispatchOne_cases with ⟨intact, launch⟩ | ⟨unit, placement, picked, isIdle⟩
  · exact ⟨intact, launch ▸ queue⟩
  · obtain ⟨u, resident, free⟩ := ((parted.idle unit).mp isIdle).1
    obtain ⟨g, rest, wavefronts, first, found, waits, listed, remaining⟩ :=
      reserveGroup_of_waits queue pending unit
    rw [dispatchOne_outcome picked isIdle first found waits listed resident free]
    exact ⟨(parted.handed isIdle resident ..).intact true, remaining⟩

/-! ## Any number of dispatches -/

theorem Parted.dispatchUpTo (parted : job.Parted none) (limit : Nat) :
    SafeUnless (¬ job.launch.QueueWaits) ((Job.dispatchUpTo limit).outcome job) := by
  induction limit generalizing job with
  | zero => exact .inl (parted.intact 0)
  | succ limit ih =>
      rw [Job.dispatchUpTo, Attempt.outcome_get_bind, Attempt.outcome_ite]
      split
      next possible =>
        have pending : job.launch.hasPending = true := (Bool.and_eq_true_iff.mp possible).2
        have one : SafeUnless (¬ job.launch.QueueWaits) (Job.dispatchOne.outcome job) := by
          by_cases queue : job.launch.QueueWaits
          · exact .inl (parted.dispatchOne_of_waits queue pending).1
          · exact parted.dispatchOne.imp_right fun loses => ⟨loses, queue⟩
        refine one.bind fun dispatched next done kept => ?_
        cases dispatched with
        | false => exact .inl (kept.intact 0)
        | true =>
            -- What is left of a queue of waiting groups is one again.
            have others : SafeUnless (¬ job.launch.QueueWaits)
                ((Job.dispatchUpTo limit).outcome next) := by
              refine (ih kept).imp_right fun loses => ⟨loses.1, fun queue => loses.2 ?_⟩
              have left := (parted.dispatchOne_of_waits queue pending).2
              rwa [done] at left
            exact others.bind fun count _ _ kept' => .inl (kept'.intact (count + 1))
      next => exact .inl (parted.intact 0)

/-- A launch in the hands of someone who marks no group that is in the queue costs no unit. -/
theorem Parted.dispatch_of_handled {origin : NdRange} (parted : job.Parted none)
    (new : origin.Consistent) (handled : origin.Handled job.launch) :
    Intact (dispatch.outcome job) := by
  have fares : SafeUnless (¬ job.launch.QueueWaits) (dispatch.outcome job) :=
    parted.dispatchUpTo _
  exact fares.resolve_right fun loses => loses.2 (handled.queueWaits new)

/-- Dispatch in a device whose units are each idle or busy, for a launch in any state and with any
placement: no unit is lost, and then a refusal means that the placement has picked a unit that is
not idle; or dispatch is refused and one unit is lost, and then the queue held a group that did not
wait. -/
theorem dispatch_loses_at_most_one (parted : job.Parted none) :
    (Intact (dispatch.outcome job) ∨ LosesOne (dispatch.outcome job)) ∧
      (job.launch.QueueWaits → Intact (dispatch.outcome job)) := by
  have fares : SafeUnless (¬ job.launch.QueueWaits) (dispatch.outcome job) :=
    parted.dispatchUpTo _
  refine ⟨fares.imp_right And.left, fun queue => ?_⟩
  exact fares.resolve_right fun loses => loses.2 queue

/-- A group of a new launch is marked by hand while it is in the queue, and a new device of one unit
dispatches it. -/
theorem dispatch_loses_at_most_one_on_one_unit :
    ∃ (device : Device SyntheticProgram FixedLatency Placer) (nd marked : NdRange),
      Device.build 0 { computeUnits := 1, streamCores := 2, wavefrontSize := 4 }
        (.ofKinds []) { latency := 3 } PlacementPolicy.firstIdle.build = .ok device ∧
      NdRange.create 1 0 "kernel" ⟨8, 1, 1⟩ ⟨8, 1, 1⟩ 4 = .ok nd ∧
      nd.markRunning 0 5 = .ok marked ∧
      let job := Job.fresh device .reverse .discard marked
      job.Parted none ∧ (Intact (dispatch.outcome job) ∨ LosesOne (dispatch.outcome job)) := by
  have built : Device.build 0 { computeUnits := 1, streamCores := 2, wavefrontSize := 4 }
      (SyntheticProgram.ofKinds []) ({ latency := 3 } : FixedLatency)
      PlacementPolicy.firstIdle.build = .ok _ := rfl
  have made : NdRange.create 1 0 "kernel" ⟨8, 1, 1⟩ ⟨8, 1, 1⟩ 4 = .ok _ := rfl
  have parted := (Owned.fresh built (by decide)
    (PlacementPolicy.reliable_build .firstIdle) made .reverse .discard).parted
  refine ⟨_, _, _, built, made, rfl, ?_⟩
  intro job
  have apart : job.Parted none := parted.congr rfl rfl rfl
  exact ⟨apart, (dispatch_loses_at_most_one apart).1⟩

/-- There the dispatch is refused, and the unit, which holds no group, is neither idle nor busy
afterwards. -/
theorem dispatch_loses_a_unit :
    ∃ (device : Device SyntheticProgram FixedLatency Placer) (nd marked : NdRange),
      Device.build 0 { computeUnits := 1, streamCores := 2, wavefrontSize := 4 }
        (.ofKinds []) { latency := 3 } PlacementPolicy.firstIdle.build = .ok device ∧
      NdRange.create 1 0 "kernel" ⟨8, 1, 1⟩ ⟨8, 1, 1⟩ 4 = .ok nd ∧
      nd.markRunning 0 5 = .ok marked ∧
      let job := Job.fresh device .reverse .discard marked
      let after := (dispatch.outcome job).2
      job.Parted none ∧
        (dispatch.outcome job).1 = .error (.invalidTransition 0 .running .running) ∧
        after.Rests 0 ∧ after.device.idle.contains 0 = false ∧
        after.device.busy.contains 0 = false := by
  have built : Device.build 0 { computeUnits := 1, streamCores := 2, wavefrontSize := 4 }
      (SyntheticProgram.ofKinds []) ({ latency := 3 } : FixedLatency)
      PlacementPolicy.firstIdle.build = .ok _ := rfl
  have made : NdRange.create 1 0 "kernel" ⟨8, 1, 1⟩ ⟨8, 1, 1⟩ 4 = .ok _ := rfl
  have parted := (Owned.fresh built (by decide)
    (PlacementPolicy.reliable_build .firstIdle) made .reverse .discard).parted
  refine ⟨_, _, _, built, made, rfl, ?_⟩
  intro job after
  have refused : (dispatch.outcome job).1 = .error (.invalidTransition 0 .running .running) := rfl
  have rests : after.Rests 0 :=
    ⟨_, (Device.getElem?_of_build built .reverse 0 _).mpr ⟨by decide, rfl⟩, rfl⟩
  exact ⟨parted.congr rfl rfl rfl, refused, rests, rfl, rfl⟩

end Job

end Accelerator
