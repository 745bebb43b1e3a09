import Accelerator.Device.Run
import Accelerator.Proofs.Attempt

/-!
# The loop of a run

A run repeats the same round: dispatch as long as possible, see whether the run is over or its
budget used up, and let the units work for a cycle. `Job.driveWith` is this loop with the work of
a unit as a parameter, so that it can be compared with runs in which units work in another way.
With the work that the device has them do it is `Job.drive`.
-/

namespace Accelerator.Job

variable {ι μ π : Type}

/-! ## Before the first cycle -/

/-- The groups of the launch are small enough for the device, and its wavefronts of the right
size. -/
def Fits (job : Job ι μ π) : Prop :=
  job.launch.groupSize ≤ job.device.config.maxGroupSize ∧
    job.launch.wavefrontSize = job.device.config.wavefrontSize

/-- The device is at work on the launch. -/
def admitted (job : Job ι μ π) : Job ι μ π :=
  { job with device := { job.device with
      active := some { launch := job.launch.launch, id := job.launch.id } } }

theorem begin_of_active {job : Job ι μ π} {active : ActiveLaunch}
    (under_way : job.device.active = some active) (same : active.launch = job.launch.launch) :
    begin.outcome job = (.ok (), job) := by
  rw [begin, Attempt.outcome_get_bind]
  simp [under_way, same]

theorem begin_of_fits {job : Job ι μ π} (free : job.device.active = none) (fits : job.Fits) :
    begin.outcome job = (.ok (), job.admitted) := by
  rw [begin, Attempt.outcome_get_bind]
  simp [free, Nat.not_lt.mpr fits.1, fits.2, modifyDevice, admitted]

/-- As long as the device has another launch every launch is refused. -/
theorem begin_of_in_flight {job : Job ι μ π} {active : ActiveLaunch}
    (under_way : job.device.active = some active) (other : active.launch ≠ job.launch.launch) :
    begin.outcome job = (.error (.launchInFlight active.id job.launch.id), job) := by
  rw [begin, Attempt.outcome_get_bind]
  simp [under_way, other]

/-- Groups that are too large are refused, as long as the device has no launch. -/
theorem begin_of_large {job : Job ι μ π} (free : job.device.active = none)
    (large : job.device.config.maxGroupSize < job.launch.groupSize) :
    begin.outcome job =
      (.error (.groupTooLarge job.launch.groupSize job.device.config.maxGroupSize), job) := by
  rw [begin, Attempt.outcome_get_bind]
  simp [free, large]

/-- And so are wavefronts of another size than the device has. -/
theorem begin_of_size_ne {job : Job ι μ π} (free : job.device.active = none)
    (small : job.launch.groupSize ≤ job.device.config.maxGroupSize)
    (differs : job.launch.wavefrontSize ≠ job.device.config.wavefrontSize) :
    begin.outcome job = (.error (.invalidLaunch
      ("wavefront size " ++ toString job.launch.wavefrontSize
        ++ " does not match device wavefront size "
        ++ toString job.device.config.wavefrontSize)), job) := by
  rw [begin, Attempt.outcome_get_bind]
  simp [free, Nat.not_lt.mpr small, differs]

/-- A run of a launch that is under way goes on, one of a new launch begins if it fits, and in all
other cases nothing happens. -/
theorem begin_cases (job : Job ι μ π) :
    (∃ e, begin.outcome job = (.error e, job)) ∨
      (begin.outcome job = (.ok (), job) ∧
        ∃ active, job.device.active = some active ∧ active.launch = job.launch.launch) ∨
      (begin.outcome job = (.ok (), job.admitted) ∧ job.device.active = none ∧ job.Fits) := by
  rcases under_way : job.device.active with _ | active
  · by_cases fits : job.Fits
    · exact Or.inr (Or.inr ⟨begin_of_fits under_way fits, rfl, fits⟩)
    · left
      by_cases large : job.device.config.maxGroupSize < job.launch.groupSize
      · exact ⟨_, begin_of_large under_way large⟩
      · have small := Nat.le_of_not_lt large
        exact ⟨_, begin_of_size_ne under_way small fun same => fits ⟨small, same⟩⟩
  · by_cases same : active.launch = job.launch.launch
    · exact Or.inr (Or.inl ⟨begin_of_active under_way same, active, rfl, same⟩)
    · exact Or.inl ⟨_, begin_of_in_flight under_way same⟩

/-! ## After the last cycle -/

/-- Nothing can be dispatched, and no unit is busy. -/
structure Quiet (job : Job ι μ π) : Prop where
  placed : job.canDispatch = false
  idle : job.device.busy.isEmpty = true

/-- The job once its events have been sent on. -/
def flushed (job : Job ι μ π) : Job ι μ π :=
  { job with device := { job.device with sink := job.device.sink.flush } }

/-- The job once its run is over. -/
def finished (job : Job ι μ π) : Job ι μ π :=
  { job with device := { job.device with active := none, sink := job.device.sink.flush } }

theorem suspend_outcome (job : Job ι μ π) :
    suspend.outcome job = (.ok (.suspended job.device.stats), job.flushed) := rfl

theorem finish_outcome (job : Job ι μ π) :
    finish.outcome job = (.ok (.completed job.device.stats), job.finished) := rfl

/-! ## A round -/

/-- Dispatch as long as a unit is idle and a group waits. -/
def place [Placement π] : Attempt (Job ι μ π) Unit := do
  if (← get).canDispatch then
    let _ ← dispatch

/-- The next cycle of the device, in which the busy units work as `visit` says. -/
def advanceWith (visit : Nat → Attempt (Job ι μ π) Unit) : Attempt (Job ι μ π) Unit := do
  modifyDevice fun device => { device with cycle := device.cycle + 1 }
  (← get).device.busy.toList.forM visit

/-- One round of a run that is not over goes on with the attempt `next`, as long as its budget
allows. -/
def round [Placement π] (budget : Option Nat) (next : Attempt (Job ι μ π) Outcome) :
    Attempt (Job ι μ π) Outcome := do
  place
  if (← get).device.busy.isEmpty then
    finish
  else if budget = some 0 then
    suspend
  else
    next

/-- A run whose units work as `visit` says. -/
def driveWith [Placement π] (visit : Nat → Attempt (Job ι μ π) Unit) :
    (room : Nat) → (budget : Option Nat) → Attempt (Job ι μ π) Outcome
  | 0, budget => round budget (throw (.fault .cycleOverflow))
  | room + 1, budget => round budget do
    advanceWith visit
    driveWith visit room (budget.map (· - 1))

/-- A run of a launch whose units work as `visit` says, with a budget of cycles or without one. -/
def runWith [Placement π] (visit : Nat → Attempt (Job ι μ π) Unit) (budget : Option Nat) :
    Attempt (Job ι μ π) Outcome := do
  begin
  driveWith visit (wordBound - 1 - (← get).device.cycle) budget

section Outcome

variable [Placement π] {job placed : Job ι μ π} {budget : Option Nat}
  {next : Attempt (Job ι μ π) Outcome}

theorem place_outcome (job : Job ι μ π) :
    (place : Attempt (Job ι μ π) Unit).outcome job =
      if job.canDispatch then (do let _ ← dispatch : Attempt (Job ι μ π) Unit).outcome job
      else (.ok (), job) := by
  rw [place, Attempt.outcome_get_bind, Attempt.outcome_ite]
  rfl

theorem round_outcome (done : place.outcome job = (.ok (), placed)) :
    (round budget next).outcome job =
      if placed.device.busy.isEmpty then finish.outcome placed
      else if budget = some 0 then suspend.outcome placed
      else next.outcome placed := by
  rw [round, Attempt.outcome_bind_of_ok done, Attempt.outcome_get_bind, Attempt.outcome_ite,
    Attempt.outcome_ite]

/-- A round says more than the lines it is made of only in that dispatch is a step of its own. -/
theorem round_eq (budget : Option Nat) (next : Attempt (Job ι μ π) Outcome) :
    (do
      if (← get).canDispatch then
        let _ ← dispatch
      if (← get).device.busy.isEmpty then finish
      else if budget = some 0 then suspend
      else next) = round budget next := by
  apply Attempt.ext
  intro job
  have placed := place_outcome job
  rw [Attempt.outcome_get_bind]
  cases possible : job.canDispatch with
  | false =>
      rw [possible] at placed
      rw [round, Attempt.outcome_bind_of_ok placed]
      rfl
  | true =>
      rw [possible, if_pos rfl, Attempt.outcome_bind] at placed
      simp only [if_true]
      rw [Attempt.outcome_bind]
      rcases dispatched : dispatch.outcome job with ⟨e | count, after⟩
      · rw [dispatched] at placed
        rw [round, Attempt.outcome_bind_of_error placed]
      · rw [dispatched] at placed
        rw [round, Attempt.outcome_bind_of_ok placed]

end Outcome

/-! ## Properties of whole runs -/

section Properties

open Attempt

variable [Placement π] {P : Job ι μ π → Prop} {visit : Nat → Attempt (Job ι μ π) Unit}

/-- What every part of a round keeps is kept by a run. -/
theorem keeps_driveWith (placing : Keeps P place) (working : Keeps P (advanceWith visit))
    (finishing : Keeps P finish) (suspending : Keeps P suspend) (room : Nat)
    (budget : Option Nat) : Keeps P (driveWith visit room budget) := by
  have rounds : ∀ {budget : Option Nat} {next : Attempt (Job ι μ π) Outcome}, Keeps P next →
      Keeps P (round budget next) := fun goes_on =>
    placing.bind fun _ => keeps_get.bind fun _ =>
      Keeps.ite finishing (Keeps.ite suspending goes_on)
  induction room generalizing budget with
  | zero => exact rounds (keeps_throw _)
  | succ room ih => exact rounds (working.bind fun _ => ih _)

/-- What holds when a run is over and when it is interrupted holds whenever it has an answer. -/
theorem ensures_driveWith (finishing : Ensures P finish) (suspending : Ensures P suspend)
    (room : Nat) (budget : Option Nat) : Ensures P (driveWith visit room budget) := by
  have rounds : ∀ {budget : Option Nat} {next : Attempt (Job ι μ π) Outcome}, Ensures P next →
      Ensures P (round budget next) := fun goes_on =>
    Ensures.bind fun _ => Ensures.bind fun _ =>
      Ensures.ite finishing (Ensures.ite suspending goes_on)
  induction room generalizing budget with
  | zero => exact rounds (ensures_throw _)
  | succ room ih => exact rounds (Ensures.bind fun _ => ih _)

end Properties

/-! ## Runs that match -/

section Matching

open Attempt

variable [Placement π] {R : Job ι μ π → Job ι μ π → Prop}
  {left right : Nat → Attempt (Job ι μ π) Unit} {budget : Option Nat}

/-- If every part of a round matches, whole runs do. -/
theorem matches_driveWith
    (busy : ∀ {job other}, R job other → job.device.busy.isEmpty = other.device.busy.isEmpty)
    (placing : Matches R Eq place place)
    (working : Matches R Eq (advanceWith left) (advanceWith right))
    (finishing : Matches R Eq finish finish) (suspending : Matches R Eq suspend suspend)
    (room : Nat) (budget : Option Nat) :
    Matches R Eq (driveWith left room budget) (driveWith right room budget) := by
  have rounds : ∀ {budget : Option Nat} {next next' : Attempt (Job ι μ π) Outcome},
      Matches R Eq next next' → Matches R Eq (round budget next) (round budget next') :=
    fun goes_on => placing.andThen <| matches_get fun _ _ related =>
      Matches.ite (by rw [busy related]) finishing (Matches.ite Iff.rfl suspending goes_on)
  induction room generalizing budget with
  | zero => exact rounds (matches_throw _)
  | succ room ih => exact rounds (working.andThen (ih _))

theorem matches_runWith
    (cycle : ∀ {job other}, R job other → job.device.cycle = other.device.cycle)
    (begins : Matches R Eq begin begin)
    (drives : ∀ room, Matches R Eq (driveWith left room budget) (driveWith right room budget)) :
    Matches R Eq (runWith left budget) (runWith right budget) :=
  begins.andThen <| matches_get fun _ _ related => cycle related ▸ drives _

end Matching

/-! ## The loop of the device -/

section Drive

variable [InstructionModel ι] [MemoryService μ] [Placement π]

omit [Placement π] in
theorem advance_eq_advanceWith [Sums] :
    (advance : Attempt (Job ι μ π) Unit) = advanceWith stepUnit := rfl

/-- The loop of the device is the one in which units work as they do. -/
theorem drive_eq_driveWith [Sums] (room : Nat) (budget : Option Nat) :
    (drive room budget : Attempt (Job ι μ π) Outcome) = driveWith stepUnit room budget := by
  induction room generalizing budget with
  | zero => exact round_eq budget _
  | succ room ih =>
      rw [driveWith, ← ih, ← advance_eq_advanceWith]
      exact round_eq budget _

theorem drive_outcome {job placed : Job ι μ π} (done : place.outcome job = (.ok (), placed))
    (room : Nat) (budget : Option Nat) :
    (drive room budget).outcome job =
      if placed.device.busy.isEmpty then finish.outcome placed
      else if budget = some 0 then suspend.outcome placed
      else match room with
        | 0 => (.error (.fault .cycleOverflow), placed)
        | room + 1 => (do
            advance
            drive room (budget.map (· - 1)) : Attempt (Job ι μ π) Outcome).outcome placed := by
  rw [drive_eq_driveWith]
  cases room with
  | zero =>
      rw [driveWith, round_outcome done]
      rfl
  | succ room => rw [driveWith, round_outcome done, ← drive_eq_driveWith, advance_eq_advanceWith]

/-- A run without a budget that is not over after dispatch goes on after the next cycle. -/
theorem drive_succ_outcome {job placed next : Job ι μ π}
    (done : place.outcome job = (.ok (), placed)) (goes_on : placed.device.busy.isEmpty = false)
    (advanced : advance.outcome placed = (.ok (), next)) (room : Nat) :
    (drive (room + 1) none).outcome job = (drive room none).outcome next := by
  rw [drive_outcome done, goes_on, if_neg Bool.false_ne_true, if_neg (Option.some_ne_none 0).symm]
  exact Attempt.outcome_bind_of_ok advanced

theorem runWithin_outcome [Sums] {job begun : Job ι μ π} (begins : begin.outcome job = (.ok (), begun))
    (budget : Option Nat) :
    (runWithin budget).outcome job =
      (drive (wordBound - 1 - begun.device.cycle) budget).outcome begun := by
  rw [runWithin, Attempt.outcome_bind_of_ok begins, Attempt.outcome_get_bind]

theorem runWithin_outcome_of_error [Sums] {job : Job ι μ π} {e : Error}
    (refused : begin.outcome job = (.error e, job)) (budget : Option Nat) :
    (runWithin budget).outcome job = (.error e, job) := by
  rw [runWithin, Attempt.outcome_bind_of_error refused]

theorem run_outcome (job : Job ι μ π) :
    run.outcome job =
      (((runWithin none).outcome job).1.map Outcome.stats, ((runWithin none).outcome job).2) := by
  rw [run, Attempt.outcome_bind]
  rcases (runWithin none).outcome job with ⟨e | answer, after⟩ <;> rfl

/-- A run without a budget has an answer whenever the run within none has one. -/
theorem run_eq_ok {job after : Job ι μ π} {stats : RunStats} :
    run.outcome job = (.ok stats, after) ↔
      ∃ answer, (runWithin none).outcome job = (.ok answer, after) ∧ answer.stats = stats := by
  rw [run_outcome]
  rcases (runWithin none).outcome job with ⟨e | answer, final⟩
  · simp [Except.map]
  · simp [Except.map, and_comm, and_assoc]

theorem runWithin_eq_runWith [Sums] (budget : Option Nat) :
    (runWithin budget : Attempt (Job ι μ π) Outcome) = runWith stepUnit budget := by
  simp only [runWithin, runWith, drive_eq_driveWith]

end Drive

end Accelerator.Job
