import Accelerator.Proofs.Device.Fresh
import Accelerator.Proofs.Device.Likeness
import Accelerator.Proofs.Sink

/-!
# The order of evaluation makes no difference

In which order the stages of a unit are evaluated may be decided anew in every cycle and for every
unit. With an instruction model that has no state, the answers to all calls and everything that a
run leaves behind are the same for all such decisions, except for the order in which the events of
one cycle of one unit are recorded.
-/

namespace Accelerator

/-! ## Nothing but the order differs -/

namespace ComputeUnit

variable (u : ComputeUnit) (order : StageOrder) (cycle group : Nat) (a : Answers) (stage : Stage)

theorem release_withOrder :
    ({ u with order } : ComputeUnit).release.2 = { u.release.2 with order } := by
  rcases held : u.group with _ | group
  · simp [release, held]
  · cases drained : u.isDrained <;> unfold isDrained at drained <;>
      simp [release, held, isDrained, drained, idleLanes]

theorem issuableFrom_withOrder (n index : Nat) :
    ({ u with order } : ComputeUnit).issuableFrom n index = u.issuableFrom n index := by
  induction n generalizing index with
  | zero => rfl
  | succ n ih =>
      rw [issuableFrom, issuableFrom, ih]
      rfl

/-- The plan of a cycle is made without regard to the order. -/
@[simp] theorem plan_withOrder : ({ u with order } : ComputeUnit).plan = u.plan := by
  simp only [plan, nextIssuable, issuableFrom_withOrder]

@[simp] theorem issued_withOrder :
    ({ u with order } : ComputeUnit).issued cycle = u.issued cycle := by
  simp only [issued, plan_withOrder]

@[simp] theorem given_withOrder :
    ({ u with order } : ComputeUnit).given cycle a stage = u.given cycle a stage := by
  cases stage with
  | schedule => exact u.issued_withOrder order cycle
  | _ => rfl

theorem next_withOrder :
    ({ u with order } : ComputeUnit).next cycle a = { u.next cycle a with order } := by
  have latch : ({ u with order } : ComputeUnit).nextLatch cycle a = u.nextLatch cycle a := by
    funext stage
    simp only [nextLatch, given_withOrder]
    rfl
  have resident : ({ u with order } : ComputeUnit).nextResident cycle a =
      u.nextResident cycle a := by
    funext index r
    simp only [nextResident, issued_withOrder]
    rfl
  have cursor : ({ u with order } : ComputeUnit).nextCursor = u.nextCursor := by
    simp only [nextCursor, plan_withOrder]
  simp only [next, latch, resident, cursor]
  rfl

theorem stageEvents_withOrder :
    ({ u with order } : ComputeUnit).stageEvents cycle group a = u.stageEvents cycle group a := by
  funext stage
  simp only [stageEvents, given_withOrder]
  rfl

end ComputeUnit

/-! ## Units that work in different orders -/

/-- Units differ in their order of evaluation only, and sinks in the order of events. -/
def Likeness.reordered (base : Sink) : Likeness where
  unit u v := u.Sound ∧ ∃ order, v = { u with order }
  sink := Sink.Shuffled base

theorem Likeness.faithful_reordered (base : Sink) : (Likeness.reordered base).Faithful where
  id := by
    intro u _ alike
    rcases alike with ⟨-, order, rfl⟩
    rfl
  group := by
    intro u _ alike
    rcases alike with ⟨-, order, rfl⟩
    rfl
  stats := by
    intro u _ alike
    rcases alike with ⟨-, order, rfl⟩
    rfl
  loaded := by
    intro u _ alike free group wavefronts
    rcases alike with ⟨sound, order, rfl⟩
    exact ⟨sound.assign (u.assign_eq free group wavefronts), order, rfl⟩
  release := by
    intro u _ alike
    rcases alike with ⟨sound, order, rfl⟩
    exact ⟨sound.release, order, u.release_withOrder order⟩
  record shuffled event := shuffled.replay (.refl [some event])
  flush shuffled := shuffled.replay (.refl [none])

theorem StageOrder.perm_stages (order order' : StageOrder) : order.stages.Perm order'.stages := by
  refine (List.perm_ext_iff_of_nodup order.nodup_stages order'.nodup_stages).mpr fun stage => ?_
  exact ⟨fun _ => order'.mem_stages stage, fun _ => order.mem_stages stage⟩

/-- A cycle of a unit leads to the same in every order, up to the order of its events. -/
theorem Likeness.steady_reordered (base : Sink) {ι : Type} (μ : Type) [InstructionModel ι]
    [MemoryService μ] (stateless : InstructionModel.Stateless ι) :
    (Likeness.reordered base).Steady ι μ := by
  intro u _ alike cycle isa memory
  rcases alike with ⟨sound, order, rfl⟩
  let left : Bench ι μ := { unit := u, isa, memory }
  let right : Bench ι μ := { unit := { u with order }, isa, memory }
  show Attempt.Agree _ (left.stepIn u.order cycle) (right.stepIn order cycle)
  rcases held : u.group with _ | group
  · have refuses : left.stepIn u.order cycle = .error (.idleUnit u.id) := by
      rw [Bench.stepIn, show left.unit.group = none from held]
      rfl
    have refuses' : right.stepIn order cycle = .error (.idleUnit u.id) := by
      rw [Bench.stepIn, show right.unit.group = none from held]
      rfl
    rw [refuses, refuses']
    exact .error _
  · rw [Bench.stepIn_eq sound rfl held, Bench.stepIn_eq (sound.withOrder order) rfl held]
    cases drained : u.isDrained with
    | true =>
        rw [Bench.cycled, if_pos (show left.unit.isDrained = true from drained), Bench.cycled,
          if_pos (show right.unit.isDrained = true from drained)]
        exact .ok ⟨rfl, rfl, rfl, ⟨sound, order, rfl⟩, fun s t same => same.recordStages (.refl _)⟩
    | false =>
        -- Without a state of the program the answers of a cycle do not depend on the order.
        have works : ¬ left.unit.isDrained = true := ne_true_of_eq_false drained
        have works' : ¬ right.unit.isDrained = true := ne_true_of_eq_false drained
        let a := Bench.answers u memory cycle fun _ => isa
        have next : ({ u with order } : ComputeUnit).next cycle a = { u.next cycle a with order } :=
          u.next_withOrder order cycle a
        have events : ({ u with order } : ComputeUnit).stageEvents cycle group a =
            u.stageEvents cycle group a := u.stageEvents_withOrder order cycle group a
        rw [Bench.cycled, if_neg works, Bench.cycled, if_neg works',
          Bench.after_of_stateless stateless, Bench.after_of_stateless stateless]
        refine .ok ⟨?_, rfl, rfl, ⟨sound.next _ _, order, next⟩, fun s t same => ?_⟩
        · show (if (u.next cycle a).isDrained then Progress.finished group else .running) =
            if (({ u with order } : ComputeUnit).next cycle a).isDrained then .finished group
            else .running
          rw [next]
          rfl
        · refine same.recordStages (List.Perm.append_left _ ?_)
          show (u.order.stages.flatMap (u.stageEvents cycle group a)).Perm
            (order.stages.flatMap (({ u with order } : ComputeUnit).stageEvents cycle group a))
          rw [events]
          exact (u.order.perm_stages order).flatMap_right _

namespace Job

open Attempt

variable {ι μ π : Type}

/-! ## Choosing an order for every step -/

/-- A unit will evaluate its stages in the given order from now on. -/
def reordered (job : Job ι μ π) (unit : Nat) (order : StageOrder) : Job ι μ π :=
  { job with device := { job.device with cluster := { job.device.cluster with
      units := job.device.cluster.units.modify unit fun u => { u with order } } } }

/-- Let a unit work for a cycle, in an order that may depend on everything there is. -/
def stepUnitBy [InstructionModel ι] [MemoryService μ] (choose : Job ι μ π → Nat → StageOrder)
    (unit : Nat) : Attempt (Job ι μ π) Unit := do
  modify fun job => job.reordered unit (choose job unit)
  stepUnit unit

/-- Several runs one after the other, each with its budget of cycles or with none: their answers,
and the job that they leave behind. -/
def answers (run : Option Nat → Attempt (Job ι μ π) Outcome) :
    List (Option Nat) → Job ι μ π → List (Except Error Outcome) × Job ι μ π
  | [], job => ([], job)
  | budget :: rest, job =>
    let (answer, next) := (run budget).outcome job
    let (others, last) := answers run rest next
    (answer :: others, last)

/-- The job without what the order of evaluation has an influence on. -/
def bare (job : Job ι μ π) : Job ι μ π :=
  { job with device := (job.device.withOrder .reverse).withSink .discard }

variable {base : Sink} {job other : Job ι μ π}

/-- The order in which a unit will work does not count. -/
theorem Alike.reordered (alike : Alike (.reordered base) job other) (unit : Nat)
    (order : StageOrder) : Alike (.reordered base) (job.reordered unit order) other := by
  cases alike with
  | @intro units sink pairs sinks =>
      show Alike _ (job.reordered unit order) ((job.reordered unit order).dressed units sink)
      refine .intro (fun index => ?_) sinks
      have here := pairs index
      show Option.Rel _ (job.device.cluster.units.modify unit _)[index]? units[index]?
      rw [Array.getElem?_modify]
      generalize job.device.cluster.units[index]? = left at here ⊢
      generalize units[index]? = right at here ⊢
      cases here with
      | none => split <;> exact .none
      | some related =>
          split
          · obtain ⟨sound, other, rfl⟩ := related
            exact .some ⟨sound.withOrder order, other, rfl⟩
          · exact .some related

theorem Alike.bare_eq (alike : Alike (.reordered base) job other) : job.bare = other.bare := by
  cases alike with
  | @intro units sink pairs sinks =>
      have same : job.device.cluster.units.map (fun u => { u with order := .reverse }) =
          units.map fun u => { u with order := .reverse } := by
        apply Array.ext_getElem?
        intro unit
        rw [Array.getElem?_map, Array.getElem?_map]
        refine map_eq_of_rel (pairs unit) ?_
        intro u _ alike
        rcases alike with ⟨-, order, rfl⟩
        rfl
      simp only [bare, dressed, Device.withOrder, Device.withSink, Cluster.setOrder, same]

/-! ## Runs -/

section Runs

variable [InstructionModel ι] [MemoryService μ] (stateless : InstructionModel.Stateless ι)
  (choose : Job ι μ π → Nat → StageOrder)

include stateless

theorem matches_stepUnitBy (unit : Nat) :
    Matches (@Alike ι μ π (.reordered base)) Eq (stepUnitBy choose unit) (stepUnit unit) := by
  intro job other alike
  exact matches_stepUnit (Likeness.faithful_reordered base)
    (Likeness.steady_reordered base μ stateless) unit _ other (alike.reordered unit _)

variable [Placement π]

/-- Whatever orders are chosen, runs have the same answers as those of the device and lead to the
same job, up to the order of events. -/
theorem answers_stepUnitBy (budgets : List (Option Nat))
    (alike : Alike (.reordered base) job other) :
    (answers (runWith (stepUnitBy choose)) budgets job).1 = (answers runWithin budgets other).1 ∧
      Alike (.reordered base) (answers (runWith (stepUnitBy choose)) budgets job).2
        (answers runWithin budgets other).2 := by
  induction budgets generalizing job other with
  | nil => exact ⟨rfl, alike⟩
  | cons budget rest ih =>
      obtain ⟨agree, next⟩ := alike_runWith (matches_stepUnitBy stateless choose)
        (Likeness.faithful_reordered base) budget job other alike
      rw [← runWithin_eq_runWith] at agree next
      obtain ⟨others, last⟩ := ih next
      exact ⟨congrArg₂ List.cons agree.eq others, last⟩

end Runs

/-- New devices that differ in their order of evaluation. -/
theorem alike_fresh {id : Nat} {config : DeviceConfig} {isa : ι} {memory : μ} {placement : π}
    {device : Device ι μ π} (built : Device.build id config isa memory placement = .ok device)
    (small : config.wavefrontSize < countBound) (nd : NdRange) (order order' : StageOrder)
    (sink : Sink) :
    Alike (.reordered sink) (Job.fresh device order sink nd) (Job.fresh device order' sink nd) := by
  show Alike _ (Job.fresh device order sink nd)
    ((Job.fresh device order sink nd).dressed (device.withOrder order').cluster.units sink)
  refine .intro (fun unit => ?_) (Sink.shuffled_refl sink)
  show Option.Rel _ (device.withOrder order).cluster.units[unit]?
    (device.withOrder order').cluster.units[unit]?
  by_cases bound : unit < config.computeUnits
  · have left := (Device.getElem?_of_build built order unit _).mpr ⟨bound, rfl⟩
    have right := (Device.getElem?_of_build built order' unit _).mpr ⟨bound, rfl⟩
    rw [left, right]
    exact .some ⟨Device.sound_of_build built small order left, order', rfl⟩
  · have outside : ∀ order, (device.withOrder order).cluster.units[unit]? = none := fun order =>
      Option.eq_none_iff_forall_ne_some.mpr fun u found =>
        bound ((Device.getElem?_of_build built order unit u).mp found).1
    rw [outside, outside]
    exact .none

/-- The order in which stages are evaluated makes no difference. Whatever order is chosen for
every step of every unit of a new device, any sequence of runs has the same answers as on a device
whose units keep to one order, and leaves the same device, memory and launch behind; and the same
events have been recorded, in some order or other. -/
theorem order_makes_no_difference [MemoryService μ] [Placement π] {id : Nat} {config : DeviceConfig}
    {program : SyntheticProgram} {memory : μ} {placement : π} {device : Device SyntheticProgram μ π}
    (built : Device.build id config program memory placement = .ok device)
    (small : config.wavefrontSize < countBound) (nd : NdRange) (order order' : StageOrder)
    (sink : Sink) (choose : Job SyntheticProgram μ π → Nat → StageOrder)
    (budgets : List (Option Nat)) :
    let chosen := answers (runWith (stepUnitBy choose)) budgets (Job.fresh device order sink nd)
    let plain := answers runWithin budgets (Job.fresh device order' sink nd)
    chosen.1 = plain.1 ∧ chosen.2.bare = plain.2.bare ∧
      chosen.2.device.sink.events.toList.Perm plain.2.device.sink.events.toList ∧
      Sink.Shuffled sink chosen.2.device.sink plain.2.device.sink := by
  intro chosen plain
  obtain ⟨same, alike⟩ := answers_stepUnitBy SyntheticProgram.stateless choose budgets
    (alike_fresh built small nd order order' sink)
  have shuffled : Sink.Shuffled sink chosen.2.device.sink plain.2.device.sink := by
    show Sink.Shuffled sink (answers _ _ _).2.device.sink (answers _ _ _).2.device.sink
    generalize (answers (runWith (stepUnitBy choose)) budgets (Job.fresh device order sink nd)).2 =
      left at alike ⊢
    generalize (answers runWithin budgets (Job.fresh device order' sink nd)).2 = right at alike ⊢
    cases alike with
    | intro _ sinks => exact sinks
  exact ⟨same, alike.bare_eq, shuffled.events_perm, shuffled⟩

/-- The same on a device of two units, one of which changes its order in every cycle. -/
theorem order_makes_no_difference_on_two_units :
    ∃ (device : Device SyntheticProgram FixedLatency Placer) (nd : NdRange),
      Device.build 0 { computeUnits := 2, streamCores := 2, wavefrontSize := 4 }
        (.ofKinds [.load, .alu]) { latency := 3 } PlacementPolicy.firstIdle.build = .ok device ∧
      NdRange.create 1 0 "kernel" ⟨24, 1, 1⟩ ⟨8, 1, 1⟩ 4 = .ok nd ∧
      let choose : Job SyntheticProgram FixedLatency Placer → Nat → StageOrder := fun job unit =>
        if (job.device.cycle + unit) % 2 = 0 then .forward else .reverse
      let chosen := answers (runWith (stepUnitBy choose)) [some 5, none]
        (Job.fresh device .reverse .keepAll nd)
      let plain := answers runWithin [some 5, none] (Job.fresh device .forward .keepAll nd)
      chosen.1 = plain.1 ∧ chosen.2.bare = plain.2.bare := by
  have built : Device.build 0 { computeUnits := 2, streamCores := 2, wavefrontSize := 4 }
      (SyntheticProgram.ofKinds [.load, .alu]) ({ latency := 3 } : FixedLatency)
      PlacementPolicy.firstIdle.build = .ok _ := rfl
  have made : NdRange.create 1 0 "kernel" ⟨24, 1, 1⟩ ⟨8, 1, 1⟩ 4 = .ok _ := rfl
  refine ⟨_, _, built, made, ?_⟩
  obtain ⟨same, bare, -⟩ := order_makes_no_difference built (by decide) _ .reverse .forward .keepAll
    (fun job unit => if (job.device.cycle + unit) % 2 = 0 then .forward else .reverse)
    [some 5, none]
  exact ⟨same, bare⟩

end Job

end Accelerator
