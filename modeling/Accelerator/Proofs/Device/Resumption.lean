import Accelerator.Proofs.Device.Fresh
import Accelerator.Proofs.Device.Suspension

/-!
# Suspended runs go on

A run that is interrupted when its budget is used up goes on with the next call as if nothing had
happened: the call is let in, finds nothing to dispatch, and ends as the run would have ended.
-/

namespace Accelerator.Job

open Attempt

variable {ι μ π : Type} [InstructionModel ι] [MemoryService μ] [Placement π] {job : Job ι μ π}

/-! ## Jobs that can go on -/

/-- If the device is at work on a launch, then on that of the job, and the launch fits. -/
structure Resumable (job : Job ι μ π) : Prop where
  owned : job.Owned
  fits : ∀ active, job.device.active = some active →
    active.launch = job.launch.launch ∧ job.Fits

omit [Placement π] [InstructionModel ι] [MemoryService μ] in
theorem SameRun.fits {after : Job ι μ π} (same : after.SameRun job) (fits : job.Fits) :
    after.Fits := by
  unfold Fits NdRange.groupSize
  rw [same.config, same.shape.localSize, same.shape.wavefrontSize]
  exact fits

omit [InstructionModel ι] [MemoryService μ] in
theorem Resumable.of_sameRun {after : Job ι μ π} (resumable : Resumable job) (owned : after.Owned)
    (same : after.SameRun job) : Resumable after where
  owned := owned
  fits active under_way := by
    rcases resumable.fits active (same.active.symm.trans under_way) with ⟨launch, fits⟩
    exact ⟨launch.trans same.shape.launch.symm, same.fits fits⟩

/-- The device is at work on the launch, and that launch fits. -/
structure UnderWay (job : Job ι μ π) : Prop where
  owned : job.Owned
  active : ∃ active, job.device.active = some active ∧ active.launch = job.launch.launch
  fits : job.Fits

omit [InstructionModel ι] [MemoryService μ] in
theorem keeps_resumable_begin : Keeps (Resumable (ι := ι) (μ := μ) (π := π)) begin := by
  intro job resumable
  rcases job.begin_cases with ⟨e, refused⟩ | ⟨goes_on, -⟩ | ⟨begins, -, fits⟩
  · rwa [refused]
  · rwa [goes_on]
  · rw [begins]
    refine ⟨resumable.owned.congr rfl rfl rfl rfl, fun active under_way => ?_⟩
    cases under_way
    exact ⟨rfl, fits⟩

theorem keeps_resumable_runWithin (budget : Option Nat) :
    Keeps (Resumable (ι := ι) (μ := μ) (π := π)) (runWithin budget) := by
  refine keeps_resumable_begin.bind fun _ => keeps_get.bind fun _ => ?_
  rw [drive_eq_driveWith]
  refine keeps_driveWith ?_ ?_ ?_ ?_ _ _
  · intro job resumable
    rcases resumable.owned.stands with ⟨held, stands, done, -⟩
    rw [done]
    exact resumable.of_sameRun stands.owned stands.sameRun
  · intro job resumable
    rcases resumable.owned.advance with ⟨after, sweeps, advanced⟩
    rcases resumable.owned.of_sweeps sweeps with ⟨owned, same, -⟩
    rw [← advance_eq_advanceWith, advanced]
    exact resumable.of_sameRun owned same
  · intro job resumable
    refine ⟨resumable.owned.congr rfl rfl rfl rfl, fun active here => ?_⟩
    cases here
  · intro job resumable
    exact ⟨resumable.owned.congr rfl rfl rfl rfl, resumable.fits⟩

omit [InstructionModel ι] [MemoryService μ] in
/-- A run is refused, or else it begins. -/
theorem Resumable.begin_cases (resumable : Resumable job) :
    (∃ e, begin.outcome job = (.error e, job)) ∨
      ∃ begun : Job ι μ π, begin.outcome job = (.ok (), begun) ∧ begun.UnderWay ∧
        begun.device.cycle = job.device.cycle := by
  rcases job.begin_cases with refused | ⟨goes_on, active, under_way, same⟩ | ⟨begins, -, fits⟩
  · exact Or.inl refused
  · exact Or.inr ⟨job, goes_on, ⟨resumable.owned, ⟨active, under_way, same⟩,
      (resumable.fits active under_way).2⟩, rfl⟩
  · exact Or.inr ⟨job.admitted, begins,
      ⟨resumable.owned.congr rfl rfl rfl rfl, ⟨_, rfl, rfl⟩, fits⟩, rfl⟩

/-! ## The next call -/

/-- The same answer and, once everything has been sent on, the same job. Unless the counter of
cycles has run out, everything has been sent on already. -/
structure SameEnd {α : Type} (left right : Except Error α × Job ι μ π) : Prop where
  answer : left.1 = right.1
  sent : left.2.flushed = right.2.flushed
  job : right.1 ≠ .error (.fault .cycleOverflow) → left.2 = right.2

omit [Placement π] [InstructionModel ι] [MemoryService μ] in
theorem SameEnd.refl {α : Type} (done : Except Error α × Job ι μ π) : SameEnd done done :=
  ⟨rfl, rfl, fun _ => rfl⟩

omit [Placement π] [InstructionModel ι] [MemoryService μ] in
/-- The same end is the same in every respect, as long as the counter of cycles has not run out. -/
theorem SameEnd.eq {α : Type} {left right : Except Error α × Job ι μ π}
    (same : SameEnd left right) (counted : right.1 ≠ .error (.fault .cycleOverflow)) :
    left = right :=
  Prod.ext same.answer (same.job counted)

/-- A run that has begun ends with a result, or because the counter of cycles runs out. -/
theorem Owned.sent_or_overflow (owned : job.Owned) (room : Nat) (budget : Option Nat) :
    Sent ((drive room budget).outcome job).2 ∨
      ((drive room budget).outcome job).1 = .error (.fault .cycleOverflow) := by
  have answered : ∀ {done : Except Error Outcome × Job ι μ π},
      (drive room budget).outcome job = done → (∃ answer, done.1 = .ok answer) →
      Sent ((drive room budget).outcome job).2 := by
    rintro ⟨_, after⟩ done ⟨answer, rfl⟩
    rw [done]
    exact ensures_sent room budget job answer after done
  cases budget with
  | none =>
      cases owned.course (room + 1) room with
      | ended _ _ _ _ long => exact Or.inl (answered (long none) ⟨_, rfl⟩)
      | overflow _ _ long => exact Or.inr (congrArg Prod.fst (long none))
      | pause _ _ enough _ _ _ => exact absurd enough (Nat.not_succ_le_self room)
  | some b =>
      cases owned.course b room with
      | ended _ _ _ short _ => exact Or.inl (answered short ⟨_, rfl⟩)
      | overflow _ short _ => exact Or.inr (congrArg Prod.fst short)
      | pause _ _ _ _ short _ => exact Or.inl (answered short ⟨_, rfl⟩)

variable {held begun : Job ι μ π}

/-- A run that is over is over at once when it is asked for again. -/
theorem UnderWay.again_of_over (under_way : begun.UnderWay) (stands : Stands held begun)
    (idle : held.device.busy.isEmpty = true) (budget : Option Nat) :
    (runWithin budget).outcome held.finished = finish.outcome held := by
  have fits : held.finished.Fits := stands.sameRun.fits under_way.fits
  have placed : held.finished.admitted.canDispatch = false := stands.placed
  have empty : held.finished.admitted.device.busy.isEmpty = true := idle
  rw [runWithin_outcome (begin_of_fits rfl fits), drive_outcome (place_of_placed placed),
    if_pos empty, finish_outcome, finish_outcome]
  simp only [finished, admitted, Sink.flush_flush]
  rfl

/-- A run that was interrupted goes on from where it stands. -/
theorem UnderWay.again_of_pause (under_way : begun.UnderWay) (stands : Stands held begun)
    (budget : Option Nat) :
    SameEnd ((runWithin budget).outcome held.flushed)
      ((drive (wordBound - 1 - held.device.cycle) budget).outcome held) := by
  rcases under_way.active with ⟨active, here, launch⟩
  have begins : begin.outcome held.flushed = (.ok (), held.flushed) :=
    begin_of_active (stands.sameRun.active.trans here)
      (launch.trans stands.sameRun.shape.launch.symm)
  have flushed_owned : held.flushed.Owned := stands.owned.congr rfl rfl rfl rfl
  let room := wordBound - 1 - held.device.cycle
  have goes_on : (runWithin budget).outcome held.flushed =
      (drive room budget).outcome held.flushed := runWithin_outcome begins budget
  -- The two jobs differ in nothing but what has been sent on, and so do their runs.
  have matching : Attempt.Matches (@Alike ι μ π .flushed) Eq (drive room budget)
      (drive room budget) := by
    rw [drive_eq_driveWith]
    exact alike_driveWith (matches_stepUnit Likeness.faithful_flushed
      (Likeness.steady_flushed ι μ)) Likeness.faithful_flushed room budget
  rcases matching held held.flushed held.alike_flushed with ⟨agree, alike⟩
  rw [goes_on]
  refine ⟨agree.eq.symm, alike.flushed_eq.symm, fun counted => ?_⟩
  have left : Sent ((drive room budget).outcome held.flushed).2 :=
    (flushed_owned.sent_or_overflow room budget).resolve_right (agree.eq ▸ counted)
  have right : Sent ((drive room budget).outcome held).2 :=
    (stands.owned.sent_or_overflow room budget).resolve_right counted
  exact left.symm.trans (alike.flushed_eq.symm.trans right)

/-- A call whose budget is used up and the next one end as one call with both budgets does, unless
the counter of cycles runs out in the first of them, and then it does so in the one call too. -/
theorem Resumable.resume (resumable : Resumable job) (a : Nat) (budget : Option Nat) :
    let first := (runWithin (some a)).outcome job
    let whole := (runWithin (budget.map (a + ·))).outcome job
    (first.1 = .error (.fault .cycleOverflow) ∧ whole = first) ∨
      (first.1 ≠ .error (.fault .cycleOverflow) ∧
        SameEnd ((runWithin budget).outcome first.2) whole) := by
  intro first whole
  rcases resumable.begin_cases with ⟨e, refused⟩ | ⟨begun, begins, under_way, -⟩
  · have refuses := runWithin_outcome_of_error refused
    have same : whole = first := (refuses _).trans (refuses _).symm
    by_cases counted : first.1 = .error (.fault .cycleOverflow)
    · exact Or.inl ⟨counted, same⟩
    · refine Or.inr ⟨counted, ?_⟩
      have again : (runWithin budget).outcome first.2 = whole := by
        rw [show first = (.error e, job) from refuses _, refuses]
        exact (refuses _).symm
      rw [again]
      exact .refl _
  · have room := runWithin_outcome begins
    cases under_way.owned.course a (wordBound - 1 - begun.device.cycle) with
    | ended stands idle soon short long =>
        have first_eq : first = finish.outcome _ := (room _).trans short
        have whole_eq : whole = finish.outcome _ := (room _).trans (long budget)
        rw [first_eq, whole_eq]
        refine Or.inr ⟨fun overflow => ?_, ?_⟩
        · cases overflow
        rw [finish_outcome, under_way.again_of_over stands idle, finish_outcome]
        exact .refl _
    | overflow tight short long =>
        have first_eq : first = (.error (.fault .cycleOverflow), _) := (room _).trans short
        have whole_eq : whole = (.error (.fault .cycleOverflow), _) := (room _).trans (long budget)
        rw [first_eq, whole_eq]
        exact Or.inl ⟨rfl, rfl⟩
    | @pause held stands busy enough cycle short long =>
        have first_eq : first = suspend.outcome held := (room _).trans short
        have whole_eq : whole =
            (drive (wordBound - 1 - held.device.cycle) budget).outcome held := by
          rw [cycle, Nat.add_comm, Nat.sub_add_eq, Nat.sub_right_comm]
          exact (room _).trans (long budget)
        rw [first_eq, whole_eq, suspend_outcome]
        refine Or.inr ⟨fun overflow => ?_, under_way.again_of_pause stands budget⟩
        cases overflow

/-! ## Several calls -/

/-- The job after several runs, whether they were refused or not. Each of them is given with its
budget of cycles, or with none if it has no bound. -/
def afterRuns (job : Job ι μ π) (budgets : List (Option Nat)) : Job ι μ π :=
  budgets.foldl (fun job budget => ((runWithin budget).outcome job).2) job

/-- What every run keeps is kept by several. -/
theorem keeps_afterRuns {P : Job ι μ π → Prop} (keeps : ∀ budget, Keeps P (runWithin budget))
    (holds : P job) (budgets : List (Option Nat)) : P (job.afterRuns budgets) := by
  induction budgets generalizing job with
  | nil => exact holds
  | cons budget rest ih => exact ih (keeps budget job holds)

theorem Resumable.afterRuns (resumable : Resumable job) (budgets : List (Option Nat)) :
    Resumable (job.afterRuns budgets) :=
  keeps_afterRuns keeps_resumable_runWithin resumable budgets

/-- However often a run was interrupted, it ends as it would have without interruptions. -/
theorem Resumable.resume_all (resumable : Resumable job) (budgets : List Nat)
    (counted : ((runWithin none).outcome job).1 ≠ .error (.fault .cycleOverflow)) :
    (runWithin none).outcome (job.afterRuns (budgets.map some)) =
      (runWithin none).outcome job := by
  induction budgets generalizing job with
  | nil => rfl
  | cons a rest ih =>
      rcases resumable.resume a none with ⟨overflow, same⟩ | ⟨-, same⟩
      · exact absurd ((congrArg Prod.fst same).trans overflow) counted
      · have goes_on : (runWithin none).outcome ((runWithin (some a)).outcome job).2 =
            (runWithin none).outcome job := same.eq counted
        have next := keeps_resumable_runWithin (some a) job resumable
        exact (ih next (goes_on ▸ counted)).trans goes_on

/-! ## How long a run takes -/

theorem keeps_cycle_le (start room : Nat) (budget : Option Nat) :
    Keeps (fun job : Job ι μ π => job.Owned ∧ start ≤ job.device.cycle) (drive room budget) := by
  rw [drive_eq_driveWith]
  refine keeps_driveWith ?_ ?_ ?_ ?_ _ _
  · rintro job ⟨owned, late⟩
    rcases owned.stands with ⟨held, stands, done, cycle⟩
    rw [done]
    exact ⟨stands.owned, cycle ▸ late⟩
  · rintro job ⟨owned, late⟩
    rcases owned.advance with ⟨after, sweeps, advanced⟩
    rcases owned.of_sweeps sweeps with ⟨owned', -, cycle⟩
    rw [← advance_eq_advanceWith, advanced]
    exact ⟨owned', cycle ▸ Nat.le_succ_of_le late⟩
  · rintro job ⟨owned, late⟩
    exact ⟨owned.congr rfl rfl rfl rfl, late⟩
  · rintro job ⟨owned, late⟩
    exact ⟨owned.congr rfl rfl rfl rfl, late⟩

/-- A run that is not over takes at least one more cycle. -/
theorem Stands.cycle_lt (stands : Stands held begun) (busy : held.device.busy.isEmpty = false)
    {room : Nat} {answer : Outcome} {after : Job ι μ π}
    (ended : (drive room none).outcome held = (.ok answer, after)) :
    held.device.cycle < after.device.cycle := by
  rw [drive_outcome (place_of_placed stands.placed), if_neg (ne_true_of_eq_false busy),
    if_neg (by simp)] at ended
  cases room with
  | zero => cases ended
  | succ room =>
      rcases stands.owned.advance with ⟨next, sweeps, advanced⟩
      rcases stands.owned.of_sweeps sweeps with ⟨owned, -, cycle⟩
      have late := keeps_cycle_le (held.device.cycle + 1) room none next
        ⟨owned, Nat.le_of_eq cycle.symm⟩
      have rest : (drive room none).outcome next = (.ok answer, after) :=
        (outcome_bind_of_ok advanced).symm.trans ended
      rw [rest] at late
      exact late.2

/-- A run with a budget is over within it exactly if the run without one is over in time. -/
theorem Resumable.completed_iff (resumable : Resumable job) (b : Nat) (stats : RunStats)
    (after : Job ι μ π) :
    (runFor b).outcome job = (.ok (.completed stats), after) ↔
      run.outcome job = (.ok stats, after) ∧ after.device.cycle ≤ job.device.cycle + b := by
  rw [runFor, run_outcome]
  rcases resumable.begin_cases with ⟨e, refused⟩ | ⟨begun, begins, under_way, cycle⟩
  · rw [runWithin_outcome_of_error refused, runWithin_outcome_of_error refused]
    constructor
    · rintro ⟨⟩
    · rintro ⟨⟨⟩, -⟩
  · rw [runWithin_outcome begins, runWithin_outcome begins, ← cycle]
    cases under_way.owned.course b (wordBound - 1 - begun.device.cycle) with
    | ended stands idle soon short long =>
        have whole : (drive (wordBound - 1 - begun.device.cycle) none).outcome begun = _ := long none
        rw [short, whole, finish_outcome]
        constructor
        · rintro ⟨⟩
          exact ⟨rfl, soon⟩
        · rintro ⟨⟨⟩, -⟩
          rfl
    | overflow tight short long =>
        have whole : (drive (wordBound - 1 - begun.device.cycle) none).outcome begun = _ := long none
        rw [short, whole]
        constructor
        · rintro ⟨⟩
        · rintro ⟨⟨⟩, -⟩
    | @pause held stands busy enough cycle short long =>
        have whole : (drive (wordBound - 1 - begun.device.cycle) none).outcome begun = _ := long none
        rw [short, whole]
        constructor
        · rintro ⟨⟩
        · rintro ⟨ended, soon⟩
          rcases rest : (drive (wordBound - 1 - begun.device.cycle - b) none).outcome held with
            ⟨e | answer, final⟩
          · rw [rest] at ended
            cases ended
          · rw [rest] at ended
            cases ended
            have late := stands.cycle_lt busy rest
            exact absurd (cycle ▸ soon) (Nat.not_le.mpr late)

/-- A call with a budget is refused, or completes the run, or takes exactly as many cycles as it
may, unless the counter of cycles runs out before. -/
theorem Resumable.runFor_cases (resumable : Resumable job) (b : Nat) :
    (∃ e, begin.outcome job = (.error e, job) ∧ (runFor b).outcome job = (.error e, job)) ∨
      (∃ stats after, (runFor b).outcome job = (.ok (.completed stats), after)) ∨
      (∃ stats after, (runFor b).outcome job = (.ok (.suspended stats), after) ∧
        after.device.cycle = job.device.cycle + b) ∨
      ((∃ after, (runFor b).outcome job = (.error (.fault .cycleOverflow), after)) ∧
        wordBound ≤ job.device.cycle + b) := by
  rw [runFor]
  rcases resumable.begin_cases with ⟨e, refused⟩ | ⟨begun, begins, under_way, cycle⟩
  · exact Or.inl ⟨e, refused, runWithin_outcome_of_error refused _⟩
  · right
    rw [runWithin_outcome begins, ← cycle]
    cases under_way.owned.course b (wordBound - 1 - begun.device.cycle) with
    | ended stands idle soon short long => exact Or.inl ⟨_, _, short⟩
    | overflow tight short long => exact Or.inr (Or.inr ⟨⟨_, short⟩, by omega⟩)
    | pause stands busy enough cycle short long =>
        exact Or.inr (Or.inl ⟨_, _, short, cycle⟩)

/-! ## Every run -/

variable {placement : π}

/-- Interruptions leave no trace. Whatever runs a new device has made of a new launch: a run with
a budget and then one with another end as one run with both budgets together; a run that was
interrupted any number of times ends as it would have without that; and a run with a budget
completes exactly if the remaining run needs no more cycles, and takes its whole budget otherwise.
Here the number of cycles is taken to fit its counter, and the placement never to miss an idle
unit. -/
theorem interrupted_run_eq {id : Nat} {config : DeviceConfig} {isa : ι} {memory : μ}
    {device : Device ι μ π} (built : Device.build id config isa memory placement = .ok device)
    (small : config.wavefrontSize < countBound) (reliable : Placement.Reliable placement)
    {launch number : Nat} {kernelName : String} {globalSize localSize : Dim3}
    {wavefrontSize : Nat} {nd : NdRange}
    (made : NdRange.create launch number kernelName globalSize localSize wavefrontSize = .ok nd)
    (order : StageOrder) (sink : Sink) (history : List (Option Nat)) :
    let job := (Job.fresh device order sink nd).afterRuns history
    (∀ a b : Nat,
      let first := (runFor a).outcome job
      let second := (runFor b).outcome first.2
      let whole := (runFor (a + b)).outcome job
      (whole.1 ≠ .error (.fault .cycleOverflow) → second = whole) ∧
      (whole.1 = .error (.fault .cycleOverflow) →
        first.1 = .error (.fault .cycleOverflow) ∨ second.1 = .error (.fault .cycleOverflow))) ∧
    (∀ budgets : List Nat, (run.outcome job).1 ≠ .error (.fault .cycleOverflow) →
      run.outcome (job.afterRuns (budgets.map some)) = run.outcome job) ∧
    (∀ (b : Nat) (stats : RunStats) (after : Job ι μ π),
      (runFor b).outcome job = (.ok (.completed stats), after) ↔
        run.outcome job = (.ok stats, after) ∧ after.device.cycle ≤ job.device.cycle + b) ∧
    ∀ b : Nat,
      (∃ e, begin.outcome job = (.error e, job) ∧ (runFor b).outcome job = (.error e, job)) ∨
      (∃ stats after, (runFor b).outcome job = (.ok (.completed stats), after)) ∨
      (∃ stats after, (runFor b).outcome job = (.ok (.suspended stats), after) ∧
        after.device.cycle = job.device.cycle + b) ∨
      ((∃ after, (runFor b).outcome job = (.error (.fault .cycleOverflow), after)) ∧
        wordBound ≤ job.device.cycle + b) := by
  intro job
  have owned := Owned.fresh built small reliable made order sink
  have inactive : (Job.fresh device order sink nd).device.active = none := by
    obtain ⟨-, rfl⟩ := Device.build_eq_ok built
    rfl
  have start : Resumable (Job.fresh device order sink nd) :=
    ⟨owned, fun active here => by cases inactive.symm.trans here⟩
  have resumable : Resumable job := start.afterRuns history
  refine ⟨fun a b => ?_, fun budgets counted => ?_, resumable.completed_iff,
    resumable.runFor_cases⟩
  · rcases resumable.resume a (some b) with ⟨overflow, same⟩ | ⟨-, same⟩
    · have whole : ((runFor (a + b)).outcome job).1 = .error (.fault .cycleOverflow) :=
        (congrArg Prod.fst same).trans overflow
      exact ⟨fun counted => absurd whole counted, fun _ => Or.inl overflow⟩
    · exact ⟨same.eq, fun overflow => Or.inr (same.answer.trans overflow)⟩
  · have whole : ((runWithin none).outcome job).1 ≠ .error (.fault .cycleOverflow) := by
      intro overflow
      rw [run_outcome, overflow] at counted
      exact counted rfl
    rw [run_outcome, run_outcome, resumable.resume_all budgets whole]

/-- The same on a device of two units with a memory that takes three cycles. -/
theorem interrupted_run_eq_on_two_units :
    ∃ (device : Device SyntheticProgram FixedLatency Placer) (nd : NdRange),
      Device.build 0 { computeUnits := 2, streamCores := 2, wavefrontSize := 4 }
        (.ofKinds [.load, .alu]) { latency := 3 } PlacementPolicy.roundRobin.build = .ok device ∧
      NdRange.create 1 0 "kernel" ⟨24, 1, 1⟩ ⟨8, 1, 1⟩ 4 = .ok nd ∧
      let job := (Job.fresh device .reverse .keepAll nd).afterRuns [some 5]
      ∀ budgets : List Nat, (run.outcome job).1 ≠ .error (.fault .cycleOverflow) →
        run.outcome (job.afterRuns (budgets.map some)) = run.outcome job := by
  have built : Device.build 0 { computeUnits := 2, streamCores := 2, wavefrontSize := 4 }
      (SyntheticProgram.ofKinds [.load, .alu]) ({ latency := 3 } : FixedLatency)
      PlacementPolicy.roundRobin.build = .ok _ := rfl
  have made : NdRange.create 1 0 "kernel" ⟨24, 1, 1⟩ ⟨8, 1, 1⟩ 4 = .ok _ := rfl
  refine ⟨_, _, built, made, ?_⟩
  exact (interrupted_run_eq built (by decide) (PlacementPolicy.reliable_build _) made .reverse .keepAll
    [some 5]).2.1

end Accelerator.Job
