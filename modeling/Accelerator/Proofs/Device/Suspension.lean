import Accelerator.Proofs.Device.Likeness
import Accelerator.Proofs.Device.Operations
import Accelerator.Proofs.Sink

/-!
# Suspended runs

A run whose budget is used up stops between dispatch and work, where nothing can be dispatched any
more. A run with a larger budget, or with none, comes by the same place (`Owned.course`). What the
suspended run has done beyond that is that its events are sent on, and this makes no difference to
the work of the units, nor to what will have been sent on in the end.
-/

namespace Accelerator

/-- Units are the same, and so is what will have gone out of the sinks. -/
def Likeness.flushed : Likeness where
  unit := Eq
  sink s t := s.flush = t.flush

theorem Likeness.faithful_flushed : Likeness.flushed.Faithful where
  id same := congrArg ComputeUnit.id same
  group same := congrArg ComputeUnit.group same
  stats same := congrArg ComputeUnit.stats same
  loaded same _ group wavefronts := congrArg (ComputeUnit.loaded · group wavefronts) same
  release same := congrArg (fun u => (ComputeUnit.release u).2) same
  record := Sink.flush_record_congr
  flush same := congrArg Sink.flush same

theorem Likeness.steady_flushed (ι μ : Type) [InstructionModel ι] [MemoryService μ] :
    Likeness.flushed.Steady ι μ := by
  intro u v same cycle isa memory
  cases same
  cases ({ unit := u, isa, memory } : Bench ι μ).step cycle with
  | ok work => exact .ok ⟨rfl, rfl, rfl, rfl, fun s t same => Sink.flush_recordStages_congr same _⟩
  | error e => exact .error e

namespace Job

variable {ι μ π : Type}

/-! ## What is sent on -/

theorem alike_flushed (job : Job ι μ π) : Alike .flushed job job.flushed := by
  show Alike .flushed job (job.dressed job.device.cluster.units job.device.sink.flush)
  refine .intro (fun unit => ?_) (Sink.flush_flush _).symm
  cases job.device.cluster.units[unit]? with
  | none => exact .none
  | some u => exact .some rfl

/-- Jobs of which the same will have gone out are the same once it has. -/
theorem Alike.flushed_eq {job other : Job ι μ π} (alike : Alike .flushed job other) :
    job.flushed = other.flushed := by
  cases alike with
  | @intro units sink pairs sinks =>
      have same : job.device.cluster.units = units := by
        apply Array.ext_getElem?
        intro unit
        have here := pairs unit
        generalize job.device.cluster.units[unit]? = left at here ⊢
        generalize units[unit]? = right at here ⊢
        cases here with
        | some equal => exact congrArg some equal
        | none => rfl
      have sent : job.device.sink.flush = sink.flush := sinks
      subst same
      simp only [flushed, dressed, sent]

/-- Everything that a run has reported has been sent on. -/
def Sent (job : Job ι μ π) : Prop := job.flushed = job

section Runs

variable [InstructionModel ι] [MemoryService μ] [Placement π] {job : Job ι μ π}

theorem ensures_sent (room : Nat) (budget : Option Nat) :
    Attempt.Ensures (Sent (ι := ι) (μ := μ) (π := π)) (drive room budget) := by
  rw [drive_eq_driveWith]
  refine ensures_driveWith ?_ ?_ room budget
  · intro job answer after done
    cases done
    simp [Sent, flushed]
  · intro job answer after done
    cases done
    simp [Sent, flushed]

/-! ## Where a run stands when its budget is used up -/

/-- The job after some rounds of a run, once nothing can be dispatched any more. -/
structure Stands (held job : Job ι μ π) : Prop where
  owned : held.Owned
  placed : held.canDispatch = false
  sameRun : held.SameRun job

omit [InstructionModel ι] [MemoryService μ] in
theorem Owned.stands (owned : job.Owned) :
    ∃ held, Stands held job ∧ Job.place.outcome job = (.ok (), held) ∧
      held.device.cycle = job.device.cycle := by
  obtain ⟨held, done, path, placed⟩ := owned.place
  obtain ⟨owned', same, cycle⟩ := owned.of_hands path
  exact ⟨held, ⟨owned', placed, same⟩, done, cycle⟩

/-- What becomes of a run within its first `a` cycles, when there is room for `room` cycles: the
same with a budget of `a` cycles and with a larger one. -/
inductive Course (job : Job ι μ π) (a room : Nat) : Prop
  | ended {held : Job ι μ π} (stands : Stands held job)
      (idle : held.device.busy.isEmpty = true) (soon : held.device.cycle ≤ job.device.cycle + a)
      (short : (drive room (some a)).outcome job = finish.outcome held)
      (long : ∀ budget : Option Nat,
        (drive room (budget.map (a + ·))).outcome job = finish.outcome held)
  | overflow {held : Job ι μ π} (tight : room < a)
      (short : (drive room (some a)).outcome job = (.error (.fault .cycleOverflow), held))
      (long : ∀ budget : Option Nat,
        (drive room (budget.map (a + ·))).outcome job = (.error (.fault .cycleOverflow), held))
  | pause {held : Job ι μ π} (stands : Stands held job)
      (busy : held.device.busy.isEmpty = false) (enough : a ≤ room)
      (cycle : held.device.cycle = job.device.cycle + a)
      (short : (drive room (some a)).outcome job = suspend.outcome held)
      (long : ∀ budget : Option Nat,
        (drive room (budget.map (a + ·))).outcome job = (drive (room - a) budget).outcome held)

theorem budget_unspent (a : Nat) (budget : Option Nat) : budget.map (a + 1 + ·) ≠ some 0 := by
  cases budget <;> simp

theorem budget_spend (a : Nat) (budget : Option Nat) :
    (budget.map (a + 1 + ·)).map (· - 1) = budget.map (a + ·) := by
  cases budget with
  | none => rfl
  | some b =>
      simp only [Option.map_some, Option.some.injEq]
      omega

/-- A cycle comes before everything that follows. -/
theorem Course.cons {next : Job ι μ π} {a room : Nat} (course : Course next a room)
    (same : next.SameRun job) (cycle : next.device.cycle = job.device.cycle + 1)
    (goes_on : ∀ budget : Option Nat, budget ≠ some 0 →
      (drive (room + 1) budget).outcome job =
        (drive room (budget.map (· - 1))).outcome next) : Course job (a + 1) (room + 1) := by
  have short : (drive (room + 1) (some (a + 1))).outcome job =
      (drive room (some a)).outcome next := goes_on (some (a + 1)) (by simp)
  have long : ∀ budget : Option Nat, (drive (room + 1) (budget.map (a + 1 + ·))).outcome job =
      (drive room (budget.map (a + ·))).outcome next := by
    intro budget
    rw [goes_on _ (budget_unspent a budget), budget_spend]
  cases course with
  | ended stands idle soon short' long' =>
      exact .ended ⟨stands.owned, stands.placed, stands.sameRun.trans same⟩ idle (by omega)
        (short.trans short') fun budget => (long budget).trans (long' budget)
  | overflow tight short' long' =>
      exact .overflow (Nat.succ_lt_succ tight) (short.trans short') fun budget =>
        (long budget).trans (long' budget)
  | pause stands busy enough cycle' short' long' =>
      refine .pause ⟨stands.owned, stands.placed, stands.sameRun.trans same⟩ busy
        (Nat.succ_le_succ enough) (by omega) (short.trans short') fun budget => ?_
      rw [long, long', Nat.succ_sub_succ]

/-- A run that has its budget used up stands between dispatch and work, and a run with a larger
budget comes by the same place. -/
theorem Owned.course (owned : job.Owned) (a room : Nat) : Course job a room := by
  induction a generalizing room job with
  | zero =>
      obtain ⟨held, stands, done, cycle⟩ := owned.stands
      -- A run that goes on would dispatch once more here, and finds nothing to dispatch.
      cases empty : held.device.busy.isEmpty with
      | true =>
          refine .ended stands empty (Nat.le_of_eq cycle) ?_ fun budget => ?_
          · rw [drive_outcome done, if_pos empty]
          · rw [drive_outcome done, if_pos empty]
      | false =>
          refine .pause stands empty (Nat.zero_le _) cycle ?_ fun budget => ?_
          · rw [drive_outcome done, if_neg (ne_true_of_eq_false empty), if_pos rfl]
          · have same : budget.map (0 + ·) = budget := by simp
            rw [same, Nat.sub_zero, drive_outcome done,
              drive_outcome (place_of_placed stands.placed)]
  | succ a ih =>
      obtain ⟨held, stands, done, cycle⟩ := owned.stands
      cases empty : held.device.busy.isEmpty with
      | true =>
          refine .ended stands empty (cycle ▸ Nat.le_add_right _ _) ?_ fun budget => ?_
          · rw [drive_outcome done, if_pos empty]
          · rw [drive_outcome done, if_pos empty]
      | false =>
          have busy := ne_true_of_eq_false empty
          cases room with
          | zero =>
              have ends : ∀ budget : Option Nat, budget ≠ some 0 → (drive 0 budget).outcome job =
                  (.error (.fault .cycleOverflow), held) := by
                intro budget left
                rw [drive_outcome done, if_neg busy, if_neg left]
              exact .overflow (Nat.succ_pos a) (ends _ (by simp)) fun budget =>
                ends _ (budget_unspent a budget)
          | succ room =>
              obtain ⟨next, sweeps, advanced⟩ := stands.owned.advance
              obtain ⟨owned', same, next_cycle⟩ := stands.owned.of_sweeps sweeps
              refine (ih owned' room).cons (same.trans stands.sameRun) (by omega) ?_
              intro budget left
              rw [drive_outcome done, if_neg busy, if_neg left]
              exact Attempt.outcome_bind_of_ok advanced

end Runs

end Job

end Accelerator
