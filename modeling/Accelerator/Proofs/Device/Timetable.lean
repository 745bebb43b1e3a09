import Accelerator.Proofs.Device.Operations

/-!
# Timetables

What a device does can be told without saying how its placement comes to its picks: a waiting group
is dealt to a unit, a cycle begins, a unit works. If two devices that differ in their placement only
do the same things in the same order, then they differ in nothing else afterwards.
-/

namespace Accelerator.Job

/-- One thing that a device does. -/
inductive Act where
  /-- The group that has waited longest is dealt to a unit. -/
  | deal (unit : Nat)
  /-- The next cycle begins. -/
  | tick
  /-- A unit works for a cycle. -/
  | work (unit : Nat)
deriving DecidableEq, Inhabited

variable {ι μ π : Type} [InstructionModel ι] [MemoryService μ]

/-- With an act one job becomes another. -/
inductive Does (job : Job ι μ π) : Act → Job ι μ π → Prop
  | deal {placement : π} {unit : Nat} {u : ComputeUnit} {g : WorkGroup} {rest : List Nat}
      {wavefronts : List Wavefront} (pending : job.launch.pending = g.id :: rest)
      (found : job.launch.groups[g.id]? = some g)
      (listed : job.launch.wavefrontsOf g.id = .ok wavefronts)
      (resident : job.device.cluster.units[unit]? = some u) :
    Does job (.deal unit) (job.handed placement unit u g rest wavefronts)
  | tick : Does job .tick job.ticked
  | work {unit : Nat} {after : Job ι μ π} (works : job.Works unit after) :
    Does job (.work unit) after

/-- With one act after the other one job becomes another. -/
inductive Performs : List Act → Job ι μ π → Job ι μ π → Prop
  | nil (job : Job ι μ π) : Performs [] job job
  | cons {act : Act} {acts : List Act} {job next after : Job ι μ π} (first : job.Does act next)
      (rest : Performs acts next after) : Performs (act :: acts) job after

variable {job other next after after' : Job ι μ π} {act : Act} {acts acts' : List Act}

theorem Performs.append (first : Performs acts job next) (second : Performs acts' next after) :
    Performs (acts ++ acts') job after := by
  induction first with
  | nil => exact second
  | cons does _ ih => exact .cons does (ih second)

theorem Sweeps.performs {units : List Nat} (sweeps : Sweeps units job after) :
    Performs (units.map .work) job after := by
  induction sweeps with
  | nil => exact .nil _
  | cons works _ ih => exact .cons (.work works) ih

/-! ## Twins -/

/-- The jobs differ in the placement of their devices only, which the configuration names. -/
def Twins (job other : Job ι μ π) : Prop :=
  ∃ config placement,
    other = { job with device := { job.device with config, placement } }

omit [InstructionModel ι] [MemoryService μ] in
theorem Twins.sink_eq (twins : Twins job other) :
    other.device.sink = job.device.sink := by
  obtain ⟨config, placement, rfl⟩ := twins
  rfl

/-- Work has nothing to do with the placement. -/
theorem Works.twins {unit : Nat} (twins : Twins job other) (first : job.Works unit after)
    (second : other.Works unit after') : Twins after after' := by
  obtain ⟨config, placement, rfl⟩ := twins
  cases first with
  | @intro u g resident held found _ =>
  cases second with
  | @intro v h resident' held' found' _ =>
      cases resident.symm.trans resident'
      have same : g.id = h.id := Option.some.inj (held.symm.trans held')
      rw [← same] at found'
      cases found.symm.trans found'
      refine ⟨config, placement, ?_⟩
      rcases job.stepped_cases unit u g with ⟨drained, stepped⟩ | ⟨running, stepped⟩
      · rw [stepped]
        exact if_pos drained
      · rw [stepped]
        exact if_neg (ne_true_of_eq_false running)

/-- Twins that do the same stay twins. -/
theorem Does.twins (twins : Twins job other) (first : job.Does act after)
    (second : other.Does act after') : Twins after after' := by
  cases first with
  | @deal placement unit u g rest wavefronts pending found listed resident =>
      obtain ⟨config, placement', rfl⟩ := twins
      cases second with
      | @deal _ _ v h rest' wavefronts' pending' found' listed' resident' =>
          cases resident.symm.trans resident'
          obtain ⟨same, rfl⟩ := List.cons.inj (pending.symm.trans pending')
          rw [← same] at found' listed'
          cases found.symm.trans found'
          cases listed.symm.trans listed'
          exact ⟨_, _, rfl⟩
  | tick =>
      obtain ⟨config, placement', rfl⟩ := twins
      cases second with
      | tick => exact ⟨config, placement', rfl⟩
  | work works =>
      cases second with
      | work works' => exact works.twins twins works'

theorem Performs.twins (twins : Twins job other) (first : Performs acts job after)
    (second : Performs acts other after') : Twins after after' := by
  induction first generalizing other with
  | nil =>
      cases second with
      | nil => exact twins
  | cons does _ ih =>
      cases second with
      | cons does' rest => exact ih (does.twins twins does') rest

end Accelerator.Job
