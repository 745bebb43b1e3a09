import Accelerator.Proofs.Device.SingleOwner
import Accelerator.Proofs.Device.Visits
import Accelerator.Proofs.Pipeline.Words

/-!
# Runs in words

In words a run is what it is with sums of any size until a unit takes sums that words do not hold. There
it ends in a fault.

Whether this happens can be told from the visits of the run with sums of any size: words have to hold the
sums of each of them. `Watched.InWords` relates an attempt that notes visits to what it is in words, and
goes through all parts of a run.
-/

namespace Accelerator

variable {ι μ π : Type} [InstructionModel ι] [MemoryService μ]

/-- Words hold the sums that are taken in the visit. -/
def Visit.holds (v : Visit ι μ) : Bool :=
  ({ unit := v.unit, isa := v.isa, memory := v.memory } : Bench ι μ).holdsCycle v.cycle
    (Bench.isaBefore v.unit v.cycle v.isa v.unit.order.stages .execute)

namespace Watched

open Attempt Noted

/-- Words hold the sums of all visits so far. -/
def Held (w : Watched ι μ π) : Prop := ∀ v ∈ w.notes, v.holds = true

variable [Placement π] {w : Watched ι μ π}

/-! ## From an attempt to what it is in words -/

/-- The second attempt is the first one in words: it does the same if words hold the sums of all visits,
and otherwise it is a fault. -/
structure InWords {α : Type} (noted : Attempt (Watched ι μ π) α) (plain : Attempt (Job ι μ π) α)
    (w : Watched ι μ π) : Prop where
  owned : (noted.outcome w).2.job.Owned
  /-- Visits are never forgotten. -/
  lost : Held (noted.outcome w).2 → Held w
  same : Held (noted.outcome w).2 →
    plain.outcome w.job = ((noted.outcome w).1, (noted.outcome w).2.job)
  faults : Held w → ¬ Held (noted.outcome w).2 →
    (plain.outcome w.job).1 = .error (.fault .sumOverflow)

namespace InWords

variable {α β : Type}

/-- An attempt without visits is the same in words. -/
theorem onJob {attempt : Attempt (Job ι μ π) α}
    (keeps : Keeps Job.Owned attempt) (owned : w.job.Owned) : InWords (onJob attempt) attempt w where
  owned := keeps w.job owned
  lost held := held
  same _ := rfl
  faults held overflows := absurd held overflows

theorem throw (e : Error) (owned : w.job.Owned) :
    InWords (throw e : Attempt (Watched ι μ π) α) (throw e : Attempt (Job ι μ π) α) w where
  owned := owned
  lost held := held
  same _ := rfl
  faults held overflows := absurd held overflows

/-- After a fault nothing happens any more, and a visit whose sums words do not hold is never undone. -/
theorem bind {first : Attempt (Watched ι μ π) α} {first' : Attempt (Job ι μ π) α}
    {second : α → Attempt (Watched ι μ π) β} {second' : α → Attempt (Job ι μ π) β}
    (before : InWords first first' w)
    (after : ∀ a next, first.outcome w = (.ok a, next) → next.job.Owned →
      InWords (second a) (second' a) next) :
    InWords (first >>= second) (first' >>= second') w := by
  obtain ⟨owned, lost, same, faults⟩ := before
  rcases done : first.outcome w with ⟨e | a, next⟩
  · have stops : (first >>= second).outcome w = (.error e, next) := outcome_bind_of_error done
    rw [done] at owned lost same faults
    refine ⟨?_, ?_, ?_, ?_⟩ <;> rw [stops]
    · exact owned
    · exact lost
    · exact fun held => outcome_bind_of_error (same held)
    · exact fun held overflows => answer_bind_of_error (faults held overflows)
  · have goes_on : (first >>= second).outcome w = (second a).outcome next :=
      outcome_bind_of_ok done
    rw [done] at owned lost same faults
    have rest := after a next done owned
    refine ⟨?_, ?_, ?_, ?_⟩ <;> rw [goes_on]
    · exact rest.owned
    · exact fun held => lost (rest.lost held)
    · intro held
      rw [outcome_bind_of_ok (same (rest.lost held))]
      exact rest.same held
    · intro held overflows
      by_cases between : Held next
      · rw [outcome_bind_of_ok (same between)]
        exact rest.faults between overflows
      · exact answer_bind_of_error (faults held between)

/-- What comes next may depend on the job. -/
theorem get {look : Watched ι μ π → Attempt (Watched ι μ π) α}
    {look' : Job ι μ π → Attempt (Job ι μ π) α} (here : InWords (look w) (look' w.job) w) :
    InWords (get >>= look) (get >>= look') w :=
  ⟨here.owned, here.lost, here.same, here.faults⟩

theorem ite {p : Prop} [Decidable p] {first second : Attempt (Watched ι μ π) α}
    {first' second' : Attempt (Job ι μ π) α} (left : InWords first first' w)
    (right : InWords second second' w) :
    InWords (if p then first else second) (if p then first' else second') w := by
  split
  · exact left
  · exact right

/-! ## One visit -/

/-- A busy unit works as it does with sums of any size, or not at all. -/
theorem exists_visit {unit : Nat} (owned : w.job.Owned)
    (busy : w.job.device.busy.contains unit = true) :
    ∃ v, visit? w unit = some v ∧ (letI _ := Sums.words; (Job.stepUnit unit).outcome w.job) =
      if v.holds then (Job.stepUnit unit).outcome w.job
      else (.error (.fault .sumOverflow), w.job) := by
  obtain ⟨u, g, task⟩ := owned.task busy
  let v : Visit ι μ :=
    { unit := u, isa := w.job.device.cluster.isa, memory := w.job.device.cluster.memory
      cycle := w.job.device.cycle }
  have unit_eq : w.job.device.cluster.unit unit = .ok u := by
    rw [Cluster.unit, task.resident]
    rfl
  have worked : (letI _ := Sums.words; w.job.device.cluster.stepUnit w.job.device.cycle unit) =
      if v.holds then w.job.device.cluster.stepUnit w.job.device.cycle unit
      else .error (.fault .sumOverflow) := by
    simp only [Cluster.stepUnit, unit_eq]
    exact Bench.stepIn_words (b := w.job.bench u) task.sound task.held u.order w.job.device.cycle
  have inside : ¬ w.job.device.cluster.units.size ≤ unit :=
    Nat.not_le.mpr (Array.getElem?_eq_some_iff.mp task.resident).1
  refine ⟨v, ?_, ?_⟩
  · rw [visit?, task.resident]
    rfl
  · simp only [Job.stepUnit, outcome_bind, outcome_get, inside, if_false, busy, Bool.not_true,
      Bool.false_eq_true, outcome_ofExcept, worked]
    cases v.holds <;> rfl

theorem stepUnit {unit : Nat} (owned : w.job.Owned)
    (busy : w.job.device.busy.contains unit = true) :
    InWords (Watched.stepUnit unit) (letI _ := Sums.words; Job.stepUnit unit) w := by
  obtain ⟨v, visit, plain⟩ := exists_visit owned busy
  obtain ⟨next, works, stepped⟩ := owned.stepUnit busy
  have visited : Held ((Watched.stepUnit unit).outcome w).2 ↔ Held w ∧ v.holds = true := by
    rw [stepUnit_outcome, visit, Option.toList_some]
    simp only [Held, List.forall_mem_append, List.forall_mem_singleton]
  have noted : ((Watched.stepUnit unit).outcome w).1 = .ok () ∧
      ((Watched.stepUnit unit).outcome w).2.job = next := by
    rw [stepUnit_outcome, stepped]
    exact ⟨rfl, rfl⟩
  exact {
    owned := noted.2 ▸ works.owned owned
    lost held := (visited.mp held).1
    same held := by rw [plain, if_pos (visited.mp held).2, stepped, noted.1, noted.2]
    faults held overflows := by
      rw [plain, if_neg fun holds => overflows (visited.mpr ⟨held, holds⟩)] }

/-! ## The parts of a run -/

/-- Busy units work one after the other until words do not hold the sums of one of them. -/
theorem forM_stepUnit {units : List Nat} (owned : w.job.Owned) (distinct : units.Nodup)
    (busy : ∀ unit ∈ units, w.job.device.busy.contains unit = true) :
    InWords (units.forM Watched.stepUnit) (letI _ := Sums.words; units.forM Job.stepUnit) w := by
  induction units generalizing w with
  | nil => exact ⟨owned, id, fun _ => rfl, fun held overflows => absurd held overflows⟩
  | cons unit rest ih =>
      have isBusy := busy unit (List.mem_cons_self ..)
      obtain ⟨fresh, distinct⟩ := List.nodup_cons.mp distinct
      refine (stepUnit owned isBusy).bind fun _ after done owned' => ih owned' distinct ?_
      obtain ⟨next, works, stepped⟩ := owned.stepUnit isBusy
      obtain rfl : next = after.job := by
        rw [stepUnit_outcome, stepped] at done
        cases done
        rfl
      intro other member
      have differs : other ≠ unit := by
        rintro rfl
        exact fresh member
      exact (works.busy_iff owned differs).mpr (busy other (List.mem_cons_of_mem _ member))

theorem advance (owned : w.job.Owned) :
    InWords Watched.advance (letI _ := Sums.words; Job.advance) w := by
  obtain ⟨distinct, members⟩ := owned.busy_toList
  have ticked : w.job.ticked.Owned := owned.ticked
  obtain ⟨kept, lost, same, faults⟩ :=
    forM_stepUnit (w := { w with job := w.job.ticked }) ticked distinct fun unit => (members unit).mp
  exact ⟨kept, lost, same, faults⟩

theorem round {budget : Option Nat} {next : Attempt (Watched ι μ π) Outcome}
    {next' : Attempt (Job ι μ π) Outcome} (owned : w.job.Owned)
    (goes_on : ∀ w : Watched ι μ π, w.job.Owned → InWords next next' w) :
    InWords (Noted.round budget next) (Job.round budget next') w := by
  refine (onJob Job.keeps_place owned).bind fun _ placed _ owned => get ?_
  exact ite (onJob Job.keeps_finish owned)
    (ite (onJob Job.keeps_suspend owned) (goes_on placed owned))

theorem drive (room : Nat) (budget : Option Nat) (owned : w.job.Owned) :
    InWords (Noted.drive Watched.advance room budget) (letI _ := Sums.words; Job.drive room budget)
      w := by
  let _ := Sums.words
  induction room generalizing budget w with
  | zero =>
      rw [Job.drive_eq_driveWith]
      exact round owned fun _ => throw _
  | succ room ih =>
      rw [Job.drive_eq_driveWith, Job.driveWith, ← Job.drive_eq_driveWith,
        ← Job.advance_eq_advanceWith]
      exact round owned fun w owned => (advance owned).bind fun _ _ _ owned => ih _ owned

/-- In words a run is what it is with sums of any size if words hold the sums of all its visits, and
otherwise it is a fault. -/
theorem runWithin (budget : Option Nat) (owned : w.job.Owned) :
    InWords (Noted.runWithin Watched.advance budget) (letI _ := Sums.words; Job.runWithin budget) w :=
  (onJob Job.keeps_begin owned).bind fun _ _ _ owned => get (drive _ _ owned)

end InWords

end Watched

end Accelerator
