import Accelerator.Proofs.Device.Fresh
import Accelerator.Proofs.Device.Resumption

/-!
# Notes of a run

Notes can be taken of a run while it goes on. `Noted` is a job together with the notes so far, and
`Noted.runWithin` is a run in which the cycles of the device take notes, each in a way of its own; if
they do nothing else, neither does the run (`matches_runWithin`).

`Round` is the note of one cycle: the job when units begin to work in it, the units that are stepped
then, and the answers to those steps. In every cycle of every run nothing is left to be dispatched when
the units begin to work, and each unit that is busy then is stepped once (`Logged.afterRuns`). Units
that finish leave the busy ones in the middle of the cycle, but this has no influence on the others.
-/

namespace Accelerator

/-- A job, and notes of what has been done with it. -/
structure Noted (ν ι μ π : Type) where
  job : Job ι μ π
  notes : ν

namespace Noted

open Attempt

variable {ν ι μ π : Type}

/-! ## A run that is noted -/

/-- An attempt on the job. -/
def onJob {α : Type} (attempt : Attempt (Job ι μ π) α) : Attempt (Noted ν ι μ π) α :=
  ExceptT.mk fun w => ((attempt.outcome w.job).1, { w with job := (attempt.outcome w.job).2 })

theorem onJob_outcome {α : Type} (attempt : Attempt (Job ι μ π) α) (w : Noted ν ι μ π) :
    (onJob attempt).outcome w =
      ((attempt.outcome w.job).1, { w with job := (attempt.outcome w.job).2 }) := rfl

section Runs

variable [Placement π]

/-- One round of a run that goes on with the attempt `next`. -/
def round (budget : Option Nat) (next : Attempt (Noted ν ι μ π) Outcome) :
    Attempt (Noted ν ι μ π) Outcome := do
  onJob Job.place
  if (← get).job.device.busy.isEmpty then
    onJob Job.finish
  else if budget = some 0 then
    onJob Job.suspend
  else
    next

/-- Go on with a run whose cycles are as `advance` says. -/
def drive (advance : Attempt (Noted ν ι μ π) Unit) :
    (room : Nat) → (budget : Option Nat) → Attempt (Noted ν ι μ π) Outcome
  | 0, budget => round budget (throw (.fault .cycleOverflow))
  | room + 1, budget => round budget do
    advance
    drive advance room (budget.map (· - 1))

/-- Run a launch, with a budget of cycles or without one. -/
def runWithin (advance : Attempt (Noted ν ι μ π) Unit) (budget : Option Nat) :
    Attempt (Noted ν ι μ π) Outcome := do
  onJob Job.begin
  drive advance (wordBound - 1 - (← get).job.device.cycle) budget

/-- The job and the notes after several runs, whether they were refused or not. -/
def afterRuns (advance : Attempt (Noted ν ι μ π) Unit) (w : Noted ν ι μ π)
    (budgets : List (Option Nat)) : Noted ν ι μ π :=
  budgets.foldl (fun w budget => ((runWithin advance budget).outcome w).2) w

/-! ## It is the run -/

/-- The job is the one of which notes are taken. -/
def Shows (job : Job ι μ π) (w : Noted ν ι μ π) : Prop := w.job = job

omit [Placement π] in
theorem matches_onJob {α : Type} (attempt : Attempt (Job ι μ π) α) :
    Matches Shows Eq attempt (onJob attempt : Attempt (Noted ν ι μ π) α) := by
  rintro job w rfl
  exact ⟨agree_eq _, rfl⟩

theorem matches_round {budget : Option Nat} {left : Attempt (Job ι μ π) Outcome}
    {right : Attempt (Noted ν ι μ π) Outcome} (next : Matches Shows Eq left right) :
    Matches Shows Eq (Job.round budget left) (round budget right) := by
  refine (matches_onJob _).andThen (matches_get fun job w shows => ?_)
  cases shows
  exact .ite Iff.rfl (matches_onJob _) (.ite Iff.rfl (matches_onJob _) next)

variable [InstructionModel ι] [MemoryService μ] {advance : Attempt (Noted ν ι μ π) Unit}

theorem matches_drive
    (advances : Matches Shows Eq (Job.advance : Attempt (Job ι μ π) Unit) advance) (room : Nat)
    (budget : Option Nat) : Matches Shows Eq (Job.drive room budget) (drive advance room budget) := by
  induction room generalizing budget with
  | zero =>
      rw [Job.drive_eq_driveWith]
      exact matches_round (matches_throw _)
  | succ room ih =>
      rw [Job.drive_eq_driveWith, Job.driveWith, ← Job.drive_eq_driveWith,
        ← Job.advance_eq_advanceWith]
      exact matches_round (advances.andThen (ih _))

theorem matches_runWithin
    (advances : Matches Shows Eq (Job.advance : Attempt (Job ι μ π) Unit) advance)
    (budget : Option Nat) : Matches Shows Eq (Job.runWithin budget) (runWithin advance budget) := by
  refine (matches_onJob _).andThen (matches_get fun job w shows => ?_)
  cases shows
  exact matches_drive advances _ budget

/-- Several runs come to the same job whether notes are taken of them or not. -/
theorem job_afterRuns
    (advances : Matches Shows Eq (Job.advance : Attempt (Job ι μ π) Unit) advance)
    (w : Noted ν ι μ π) (budgets : List (Option Nat)) :
    (w.afterRuns advance budgets).job = w.job.afterRuns budgets := by
  induction budgets generalizing w with
  | nil => rfl
  | cons budget rest ih =>
      have same : ((runWithin advance budget).outcome w).2.job =
          ((Job.runWithin budget).outcome w.job).2 :=
        (matches_runWithin advances budget w.job w rfl).2
      have others := ih ((runWithin advance budget).outcome w).2
      rw [same] at others
      exact others

/-! ## What a noted run keeps -/

omit [InstructionModel ι] [MemoryService μ] in
/-- What every part of a round keeps is kept by the loop of a run. A cycle begins only when nothing is
left to be dispatched. -/
theorem keeps_drive {P : Noted ν ι μ π → Prop} (owned : ∀ w, P w → w.job.Owned)
    (placing : Keeps P (onJob Job.place))
    (working : ∀ w, P w → w.job.canDispatch = false → P (advance.outcome w).2)
    (finishing : Keeps P (onJob Job.finish)) (suspending : Keeps P (onJob Job.suspend))
    (room : Nat) (budget : Option Nat) : Keeps P (drive advance room budget) := by
  have rounds : ∀ {budget : Option Nat} {next : Attempt (Noted ν ι μ π) Outcome},
      (∀ w, P w → w.job.canDispatch = false → P (next.outcome w).2) → Keeps P (round budget next) := by
    intro budget next goes_on w holds
    obtain ⟨placed, done, -, full⟩ := (owned w holds).place
    have place : (onJob Job.place).outcome w = (.ok (), { w with job := placed }) := by
      rw [onJob_outcome, done]
    have holds' := placing w holds
    rw [place] at holds'
    rw [round, outcome_bind_of_ok place, outcome_get_bind, outcome_ite, outcome_ite]
    split
    · exact finishing _ holds'
    split
    · exact suspending _ holds'
    · exact goes_on _ holds' full
  induction room generalizing budget with
  | zero => exact rounds fun w holds _ => holds
  | succ room ih =>
      refine rounds fun w holds full => ?_
      have next := working w holds full
      rw [outcome_bind]
      rcases done : advance.outcome w with ⟨e | _, after⟩
      · rw [done] at next
        exact next
      · rw [done] at next
        exact ih _ after next

omit [InstructionModel ι] [MemoryService μ] in
theorem keeps_runWithin {P : Noted ν ι μ π → Prop} {budget : Option Nat}
    (beginning : Keeps P (onJob Job.begin))
    (driving : ∀ room, Keeps P (drive advance room budget)) : Keeps P (runWithin advance budget) :=
  beginning.bind fun _ => keeps_get.bind fun _ => driving _

omit [InstructionModel ι] [MemoryService μ] in
/-- What each run keeps is kept by several in a row. -/
theorem keeps_afterRuns {P : Noted ν ι μ π → Prop}
    (running : ∀ budget, Keeps P (runWithin advance budget)) {w : Noted ν ι μ π} (holds : P w)
    (budgets : List (Option Nat)) : P (w.afterRuns advance budgets) := by
  induction budgets generalizing w with
  | nil => exact holds
  | cons budget rest ih => exact ih (running budget w holds)

end Runs

end Noted

/-! ## Rounds -/

/-- What is noted of a cycle. -/
structure Round (ι μ π : Type) where
  /-- The job when the units begin to work. -/
  start : Job ι μ π
  /-- The units that have been stepped since, and what the answers were. -/
  steps : List (Nat × Except Error Unit) := []

/-- Notes of the cycles so far, the latest one first. -/
abbrev Logged (ι μ π : Type) : Type := Noted (List (Round ι μ π)) ι μ π

namespace Logged

open Attempt Noted

variable {ι μ π : Type} [InstructionModel ι] [MemoryService μ]

/-- A unit is stepped in the cycle that has been noted last. -/
def noteStep (unit : Nat) (answer : Except Error Unit) : List (Round ι μ π) → List (Round ι μ π)
  | [] => []
  | latest :: rest => { latest with steps := latest.steps ++ [(unit, answer)] } :: rest

/-- Let a unit work, and note its number and the answer. -/
def stepUnit (unit : Nat) : Attempt (Logged ι μ π) Unit :=
  ExceptT.mk fun w =>
    let done := (Job.stepUnit unit).outcome w.job
    (done.1, { job := done.2, notes := noteStep unit done.1 w.notes })

theorem stepUnit_outcome (unit : Nat) (w : Logged ι μ π) :
    (stepUnit unit).outcome w = (((Job.stepUnit unit).outcome w.job).1, {
      job := ((Job.stepUnit unit).outcome w.job).2
      notes := noteStep unit ((Job.stepUnit unit).outcome w.job).1 w.notes }) := rfl

/-- The next cycle of the device, noted when its units begin to work. -/
def advance : Attempt (Logged ι μ π) Unit := do
  onJob (Job.modifyDevice fun device => { device with cycle := device.cycle + 1 })
  modify fun w => { w with notes := { start := w.job } :: w.notes }
  (← get).job.device.busy.toList.forM stepUnit

theorem matches_advance :
    Matches Shows Eq (Job.advance : Attempt (Job ι μ π) Unit) Logged.advance := by
  have steps : ∀ unit, Matches Shows Eq (Job.stepUnit unit : Attempt (Job ι μ π) Unit)
      (Logged.stepUnit unit) := by
    rintro unit job w rfl
    exact ⟨agree_eq _, rfl⟩
  refine (matches_onJob _).andThen fun job w shows => ?_
  cases shows
  exact Matches.forM steps _ w.job { w with notes := { start := w.job } :: w.notes } rfl

end Logged

/-! ## In every cycle -/

/-- Nothing was left to be dispatched when the units began to work, and each unit that was busy then has
been stepped once, and no other. No step was refused. -/
structure Round.Whole {ι μ π : Type} (round : Round ι μ π) : Prop where
  placed : round.start.device.idle.isEmpty = true ∨ round.start.launch.hasPending = false
  once : ∀ unit, (round.steps.map (·.1)).count unit =
    if round.start.device.busy.contains unit then 1 else 0
  answered : ∀ step ∈ round.steps, step.2 = .ok ()

/-- Each busy unit is listed once, so that it is enough to go through the list. -/
theorem Job.Owned.whole {ι μ π : Type} [Placement π] {start : Job ι μ π} (owned : start.Owned)
    (full : start.canDispatch = false) :
    Round.Whole { start, steps := start.device.busy.toList.map (·, .ok ()) } := by
  obtain ⟨distinct, members⟩ := owned.busy_toList
  refine ⟨?_, fun unit => ?_, fun step member => ?_⟩
  · rw [canDispatch, Bool.and_eq_false_iff, Bool.not_eq_false'] at full
    exact full
  · rw [List.map_map, Function.comp_def, List.map_id', distinct.count]
    simp only [members]
  · obtain ⟨unit, -, rfl⟩ := List.mem_map.mp member
    rfl

namespace Logged

open Attempt Noted

variable {ι μ π : Type} [InstructionModel ι] [MemoryService μ] [Placement π] {w : Logged ι μ π}

/-- Busy units can be stepped one after the other, and each step is noted with its answer. -/
theorem forM_stepUnit {units : List Nat} (owned : w.job.Owned) (distinct : units.Nodup)
    (busy : ∀ unit ∈ units, w.job.device.busy.contains unit = true) {round : Round ι μ π}
    {rest : List (Round ι μ π)} (notes : w.notes = round :: rest) :
    ∃ after, Job.Sweeps units w.job after ∧ (units.forM stepUnit).outcome w = (.ok (), {
      job := after
      notes := { round with steps := round.steps ++ units.map (·, .ok ()) } :: rest }) := by
  induction units generalizing w round with
  | nil =>
      refine ⟨w.job, .nil _, ?_⟩
      rw [List.map_nil, List.append_nil, ← notes]
      rfl
  | cons unit others ih =>
      obtain ⟨fresh, distinct⟩ := List.nodup_cons.mp distinct
      obtain ⟨next, works, stepped⟩ := owned.stepUnit (busy unit (List.mem_cons_self ..))
      have first : (stepUnit unit).outcome w = (.ok (), {
          job := next
          notes := { round with steps := round.steps ++ [(unit, .ok ())] } :: rest }) := by
        rw [stepUnit_outcome, stepped, notes]
        rfl
      have still : ∀ other ∈ others, next.device.busy.contains other = true := by
        intro other member
        refine (works.busy_iff owned ?_).mpr (busy other (List.mem_cons_of_mem _ member))
        rintro rfl
        exact fresh member
      obtain ⟨after, sweeps, done⟩ := ih (w := ⟨next, _⟩) (works.owned owned) distinct still rfl
      refine ⟨after, .cons works sweeps, ?_⟩
      show (stepUnit unit >>= fun _ => others.forM stepUnit).outcome w = _
      rw [outcome_bind_of_ok first, done, List.append_assoc, List.map_cons]
      rfl

/-- The notes are of all cycles so far, and say of each of them what they should. -/
structure Complete (w : Logged ι μ π) : Prop where
  owned : w.job.Owned
  cycles : w.notes.reverse.map (·.start.device.cycle) = List.range' 1 w.job.device.cycle
  whole : ∀ round ∈ w.notes, round.Whole

omit [InstructionModel ι] [MemoryService μ] in
/-- What happens to the job between two cycles makes no difference. -/
theorem Complete.withJob (complete : w.Complete) {after : Job ι μ π} (owned : after.Owned)
    (cycle : after.device.cycle = w.job.device.cycle) :
    Complete { w with job := after } where
  owned := owned
  cycles := cycle ▸ complete.cycles
  whole := complete.whole

/-- In a cycle that begins when nothing is left to be dispatched, each busy unit is stepped once. -/
theorem Complete.advance (complete : w.Complete) (full : w.job.canDispatch = false) :
    Complete (Logged.advance.outcome w).2 := by
  have owned : w.job.ticked.Owned := complete.owned.ticked
  obtain ⟨distinct, members⟩ := owned.busy_toList
  let begun : Logged ι μ π := { job := w.job.ticked, notes := { start := w.job.ticked } :: w.notes }
  obtain ⟨after, sweeps, done⟩ := forM_stepUnit (w := begun) owned distinct
    (fun unit => (members unit).mp) rfl
  have advanced : Logged.advance.outcome w = _ := done
  rw [advanced]
  have cycle : after.device.cycle = w.job.device.cycle + 1 := sweeps.cycle_eq
  refine ⟨sweeps.owned owned, ?_, fun round member => ?_⟩
  · rw [cycle, List.range'_concat, List.reverse_cons, List.map_append, complete.cycles]
    simp [Job.ticked, Nat.add_comm]
  · rcases List.mem_cons.mp member with rfl | earlier
    · exact owned.whole full
    · exact complete.whole round earlier

/-- Whatever becomes of a run, its cycles are as they should be. -/
theorem keeps_complete_runWithin (budget : Option Nat) :
    Keeps (Complete (ι := ι) (μ := μ) (π := π)) (runWithin Logged.advance budget) := by
  refine keeps_runWithin ?_ fun room => keeps_drive (fun w complete => complete.owned) ?_
    (fun w complete full => complete.advance full) ?_ ?_ room budget
  · intro w complete
    rw [onJob_outcome]
    rcases w.job.begin_cases with ⟨e, refused⟩ | ⟨goes_on, -⟩ | ⟨begins, -⟩
    · rw [refused]
      exact complete
    · rw [goes_on]
      exact complete
    · rw [begins]
      exact complete.withJob (complete.owned.congr rfl rfl rfl rfl) rfl
  · intro w complete
    obtain ⟨placed, done, path, -⟩ := complete.owned.place
    obtain ⟨owned, -, cycle⟩ := complete.owned.of_hands path
    rw [onJob_outcome, done]
    exact complete.withJob owned cycle
  · intro w complete
    exact complete.withJob (complete.owned.congr rfl rfl rfl rfl) rfl
  · intro w complete
    exact complete.withJob (complete.owned.congr rfl rfl rfl rfl) rfl

theorem Complete.afterRuns (complete : w.Complete) (budgets : List (Option Nat)) :
    Complete (w.afterRuns Logged.advance budgets) :=
  keeps_afterRuns keeps_complete_runWithin complete budgets

end Logged

end Accelerator
