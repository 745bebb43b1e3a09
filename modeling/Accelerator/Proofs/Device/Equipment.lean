import Accelerator.Proofs.Device.Isolation
import Accelerator.Proofs.VisitOrder

/-!
# What a device is equipped with

A device goes on with the placement and the memory that it was given. A pick may move the cursor of a
placement, and a request may fill a cache, but what every pick keeps true of the placement and every
request of the memory stays true through whole runs, of whatever launches. In particular a placement
follows one policy all its life.
-/

namespace Accelerator

namespace Job

open Attempt

variable {ι μ π : Type} {Good : π → Prop} {Fair : μ → Prop}

/-- The placement and the memory of the device are as they should be. -/
structure Equipped (Good : π → Prop) (Fair : μ → Prop) (job : Job ι μ π) : Prop where
  placement : Good job.device.placement
  memory : Fair job.device.cluster.memory

/-! ## What does not touch them -/

theorem keeps_equipped_modifyDevice {change : Device ι μ π → Device ι μ π}
    (placement : ∀ d, (change d).placement = d.placement)
    (memory : ∀ d, (change d).cluster.memory = d.cluster.memory) :
    Keeps (Equipped Good Fair) (modifyDevice change) := by
  refine keeps_modify fun job equipped => ⟨?_, ?_⟩
  · rw [placement]
    exact equipped.placement
  · rw [memory]
    exact equipped.memory

theorem keeps_equipped_modifyLaunch (change : NdRange → NdRange) :
    Keeps (Equipped (ι := ι) Good Fair) (modifyLaunch change) :=
  keeps_modify fun _ equipped => ⟨equipped.placement, equipped.memory⟩

theorem keeps_equipped_begin : Keeps (Equipped (ι := ι) Good Fair) begin := by
  intro job equipped
  rcases job.begin_cases with ⟨e, refused⟩ | ⟨goes_on, -⟩ | ⟨begins, -⟩
  · rwa [refused]
  · rwa [goes_on]
  · rw [begins]
    exact ⟨equipped.placement, equipped.memory⟩

theorem keeps_equipped_flush : Keeps (Equipped (ι := ι) Good Fair) flush :=
  keeps_equipped_modifyDevice (fun _ => rfl) fun _ => rfl

theorem keeps_equipped_suspend : Keeps (Equipped (ι := ι) Good Fair) suspend :=
  keeps_equipped_flush.bind fun _ => keeps_get.bind fun _ => keeps_pure _

theorem keeps_equipped_finish : Keeps (Equipped (ι := ι) Good Fair) finish := by
  refine Keeps.bind (keeps_equipped_modifyDevice ?_ ?_) fun _ =>
    keeps_equipped_flush.bind fun _ => keeps_get.bind fun _ => keeps_pure _
  all_goals exact fun _ => rfl

/-! ## Dispatch -/

section Dispatch

variable [Placement π] (picks : ∀ (p : π) (idle : UnitSet), Good p → Good (Placement.pick p idle).2)

include picks

theorem keeps_equipped_dispatchOne : Keeps (Equipped (ι := ι) Good Fair) dispatchOne := by
  have pick : Keeps (Equipped (ι := ι) Good Fair) pickUnit :=
    fun job equipped => ⟨picks _ _ equipped.placement, equipped.memory⟩
  refine pick.bind fun picked => ?_
  rcases picked with _ | unit
  · exact keeps_pure _
  have reserve : Keeps (Equipped (ι := ι) Good Fair) (reserveUnit unit) := by
    refine keeps_get.bind fun job => Keeps.ite (keeps_equipped_modifyDevice ?_ ?_) (keeps_throw _)
    all_goals exact fun _ => rfl
  have queue : Keeps (Equipped (ι := ι) Good Fair) (reserveGroup unit) := by
    refine keeps_get.bind fun job => (keeps_ofExcept _).bind fun first => ?_
    refine (keeps_equipped_modifyLaunch _).bind fun _ => keeps_get.bind fun job => ?_
    refine (keeps_ofExcept _).bind fun waiting => ?_
    exact (keeps_equipped_modifyLaunch _).bind fun _ => keeps_pure _
  have assign : ∀ group, Keeps (Equipped (ι := ι) Good Fair) (assignGroup unit group) := by
    intro group
    refine keeps_get.bind fun job => (keeps_ofExcept _).bind fun wavefronts => ?_
    refine (keeps_ofExcept _).bind fun resting => ?_
    refine (keeps_ofExcept _).bind fun assigned => keeps_equipped_modifyDevice ?_ ?_
    all_goals exact fun _ => rfl
  exact reserve.bind fun _ => queue.bind fun group => (assign group).bind fun _ => keeps_pure _

theorem keeps_equipped_dispatchUpTo (limit : Nat) :
    Keeps (Equipped (ι := ι) Good Fair) (dispatchUpTo limit) := by
  induction limit with
  | zero => exact keeps_pure _
  | succ limit ih =>
      refine keeps_get.bind fun job => Keeps.ite ?_ (keeps_pure _)
      refine (keeps_equipped_dispatchOne picks).bind fun more => Keeps.ite ?_ (keeps_pure _)
      exact ih.bind fun count => keeps_pure _

theorem keeps_equipped_place : Keeps (Equipped (ι := ι) Good Fair) place := by
  have dispatched : Keeps (Equipped (ι := ι) Good Fair) Job.dispatch :=
    keeps_get.bind fun job => keeps_equipped_dispatchUpTo picks _
  exact keeps_get.bind fun job => Keeps.ite (dispatched.bind fun _ => keeps_pure _) (keeps_pure _)

end Dispatch

/-! ## Work -/

section Work

variable [InstructionModel ι] [MemoryService μ] (stateless : InstructionModel.Stateless ι)
  (impartial : MemoryService.Impartial μ Fair)

include stateless impartial

/-- A unit that works makes a request to the memory or none. -/
theorem Equipped.works {job after : Job ι μ π} {unit : Nat} (equipped : job.Equipped Good Fair)
    (works : job.Works unit after) : after.Equipped Good Fair := by
  cases works with
  | @intro u g resident held found runs =>
      have memory : Fair ((job.bench u).cycled u.order job.device.cycle g.id).memory := by
        unfold Bench.cycled
        split
        · exact equipped.memory
        · rw [Bench.after_of_stateless stateless]
          exact Sweep.kept_memoryCall impartial equipped.memory _ _
      rcases job.stepped_cases unit u g with ⟨-, stepped⟩ | ⟨-, stepped⟩
      all_goals
        rw [stepped]
        exact ⟨equipped.placement, memory⟩

variable [Placement π]

theorem keeps_equipped_stepUnit (unit : Nat) :
    Keeps (fun job : Job ι μ π => job.Owned ∧ job.Equipped Good Fair) (stepUnit unit) := by
  rintro job ⟨owned, equipped⟩
  cases busy : job.device.busy.contains unit with
  | true =>
      obtain ⟨after, works, stepped⟩ := owned.stepUnit busy
      rw [stepped]
      exact ⟨works.owned owned, equipped.works stateless impartial works⟩
  | false =>
      rw [stepUnit_outcome_of_idle busy]
      exact ⟨owned, equipped⟩

/-- A run leaves a device equipped as it was. -/
theorem keeps_equipped_runWithin
    (picks : ∀ (p : π) (idle : UnitSet), Good p → Good (Placement.pick p idle).2)
    (budget : Option Nat) :
    Keeps (fun job : Job ι μ π => job.Owned ∧ job.Equipped Good Fair) (runWithin budget) := by
  have ticks : Keeps (fun job : Job ι μ π => job.Owned ∧ job.Equipped Good Fair)
      (modifyDevice fun device => { device with cycle := device.cycle + 1 }) :=
    Keeps.and (keeps_modifyDevice (fun _ => rfl) (fun _ => rfl) (fun _ => rfl) fun _ => rfl)
      (keeps_equipped_modifyDevice (fun _ => rfl) fun _ => rfl)
  refine (keeps_begin.and keeps_equipped_begin).bind fun _ => keeps_get.bind fun job => ?_
  rw [drive_eq_driveWith]
  refine keeps_driveWith (keeps_place.and (keeps_equipped_place picks)) ?_
    (keeps_finish.and keeps_equipped_finish) (keeps_suspend.and keeps_equipped_suspend) _ _
  exact ticks.bind fun _ => keeps_get.bind fun job =>
    Keeps.forM (keeps_equipped_stepUnit stateless impartial) _

end Work

end Job

/-! ## Runs of several launches -/

namespace Host

variable {ι μ π : Type} [InstructionModel ι] [MemoryService μ] [Placement π]

/-- The device and its launches after several runs, each of the launch at a position and with a
budget of cycles. -/
def afterRuns (h : Host ι μ π) (runs : List (Nat × Nat)) : Host ι μ π :=
  runs.foldl (fun h run => h.perform run.1 (.runFor run.2)) h

theorem calls_afterRuns (h : Host ι μ π) (runs : List (Nat × Nat)) :
    Relation.ReflTransGen Calls h (h.afterRuns runs) := by
  induction runs generalizing h with
  | nil => exact .refl
  | cons run rest ih => exact .head (.call run.1 (.runFor run.2) nofun) (ih _)

variable {h : Host ι μ π} {i : Nat} {nd : NdRange}

omit [InstructionModel ι] [MemoryService μ] in
/-- Units, sets and launch agree for the launch that is under way, and for every launch if there is
none. -/
theorem Apart.owned (apart : h.Apart) (distinct : h.Distinct) (found : h.launches[i]? = some nd)
    (at_work : h.device.active = none ∨ h.WorksOn i) : (h.job nd).Owned := by
  cases apart with
  | free _ _ _ owned => exact owned i nd found
  | @works j other here active owned _ =>
      rcases at_work with free | ⟨nd', found', active'⟩
      · cases free.symm.trans active
      · cases found.symm.trans found'
        have same := Option.some.inj (active'.symm.trans active)
        have position := distinct.eq found here (congrArg ActiveLaunch.launch same)
        rw [position] at found
        cases found.symm.trans here
        exact owned

variable {Good : π → Prop} {Fair : μ → Prop}

/-- A run leaves a device equipped as it was, whether it is let in or not. -/
theorem equipped_perform (stateless : InstructionModel.Stateless ι)
    (impartial : MemoryService.Impartial μ Fair)
    (picks : ∀ (p : π) (idle : UnitSet), Good p → Good (Placement.pick p idle).2)
    (apart : h.Apart) (distinct : h.Distinct)
    (placement : Good h.device.placement) (memory : Fair h.device.cluster.memory)
    (i budget : Nat) :
    Good (h.perform i (.runFor budget)).device.placement ∧
      Fair (h.perform i (.runFor budget)).device.cluster.memory := by
  rcases found : h.launches[i]? with _ | nd
  · rw [perform, found]
    exact ⟨placement, memory⟩
  have state : ((Job.Call.runFor budget).perform.outcome (h.job nd)).2 =
      ((Job.runWithin (some budget)).outcome (h.job nd)).2 := by
    rw [Job.Call.perform, Job.runFor, Attempt.outcome_bind]
    rcases (Job.runWithin (some budget)).outcome (h.job nd) with ⟨e | answer, after⟩ <;> rfl
  rw [perform_eq found, state]
  by_cases at_work : h.device.active = none ∨ h.WorksOn i
  · have kept := Job.keeps_equipped_runWithin stateless impartial picks (some budget) (h.job nd)
      ⟨apart.owned distinct found at_work, placement, memory⟩
    exact ⟨kept.2.placement, kept.2.memory⟩
  · -- Another launch is under way, and the run is refused.
    cases apart with
    | free inactive => exact absurd (.inl inactive) at_work
    | @works j other here active =>
        have differs : other.launch ≠ nd.launch := fun same =>
          at_work (.inr ⟨nd, found, by
            cases distinct.eq here found same
            cases here.symm.trans found
            exact active⟩)
        have under_way : (h.job nd).device.active =
            some { launch := other.launch, id := other.id } := active
        rw [Job.runWithin_of_other under_way differs]
        exact ⟨placement, memory⟩

/-- After runs of whatever launches a device is equipped as it was. -/
theorem equipped_afterRuns (stateless : InstructionModel.Stateless ι)
    (impartial : MemoryService.Impartial μ Fair)
    (picks : ∀ (p : π) (idle : UnitSet), Good p → Good (Placement.pick p idle).2)
    (apart : h.Apart) (distinct : h.Distinct)
    (placement : Good h.device.placement) (memory : Fair h.device.cluster.memory)
    (runs : List (Nat × Nat)) :
    Good (h.afterRuns runs).device.placement ∧ Fair (h.afterRuns runs).device.cluster.memory := by
  induction runs generalizing h with
  | nil => exact ⟨placement, memory⟩
  | cons run rest ih =>
      have here : Calls h (h.perform run.1 (.runFor run.2)) := .call run.1 (.runFor run.2) nofun
      obtain ⟨apart', distinct'⟩ := apart_of_calls (.single here) distinct apart
      obtain ⟨placement', memory'⟩ := equipped_perform stateless impartial picks apart distinct
        placement memory run.1 run.2
      exact ih apart' distinct' placement' memory'

end Host

end Accelerator
