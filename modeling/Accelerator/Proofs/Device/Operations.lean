import Accelerator.Proofs.Device.Ownership
import Accelerator.Proofs.Device.Runs
import Mathlib.Logic.Relation

/-!
# Operations of a device

As long as units, sets and launch agree, no operation on a job is refused, and what it does is a
sequence of transitions: dispatch hands out groups until no unit is idle or no group waits, and a
cycle lets every busy unit work once.
-/

namespace Accelerator

/-! ## A cycle of a unit, as seen from outside -/

namespace Bench

variable {ι μ : Type} [InstructionModel ι] [MemoryService μ] (order : StageOrder)
  (cycle group : Nat) (b : Bench ι μ)

@[simp] theorem cycled_id : (b.cycled order cycle group).unit.id = b.unit.id := by
  unfold cycled
  split <;> rfl

@[simp] theorem cycled_group : (b.cycled order cycle group).unit.group = b.unit.group := by
  unfold cycled
  split <;> rfl

variable {b}

theorem sound_cycled (sound : b.unit.Sound) : (b.cycled order cycle group).unit.Sound := by
  unfold cycled
  split
  · exact sound
  · exact sound.next cycle _

end Bench

namespace Job

variable {ι μ π : Type} [Placement π]

/-! ## Operations that cannot be refused -/

/-- The group that has waited longest is handed to an idle unit. -/
inductive Hands (job : Job ι μ π) : Job ι μ π → Prop
  | intro {placement : π} {unit : Nat} {u : ComputeUnit} {g : WorkGroup} {rest : List Nat}
      {wavefronts : List Wavefront} (reliable : Placement.Reliable placement)
      (pending : job.launch.pending = g.id :: rest) (found : job.launch.groups[g.id]? = some g)
      (waits : g.phase = .pending) (listed : job.launch.wavefrontsOf g.id = .ok wavefronts)
      (resident : job.device.cluster.units[unit]? = some u) (free : u.group = none) :
    Hands job (job.handed placement unit u g rest wavefronts)

/-- The unit of a number works on its group for a cycle. -/
inductive Works [InstructionModel ι] [MemoryService μ] (unit : Nat) (job : Job ι μ π) :
    Job ι μ π → Prop
  | intro {u : ComputeUnit} {g : WorkGroup} (resident : job.device.cluster.units[unit]? = some u)
      (held : u.group = some g.id) (found : job.launch.groups[g.id]? = some g)
      (runs : g.phase = .running unit) :
    Works unit job (job.stepped unit u g)

variable {job after : Job ι μ π} {unit : Nat}

theorem Hands.owned (hands : job.Hands after) (owned : job.Owned) : after.Owned := by
  cases hands with
  | intro reliable pending found waits _ resident free =>
      exact owned.handed reliable pending found waits resident free

theorem Hands.size_idle (hands : job.Hands after) (owned : job.Owned) :
    after.device.idle.size + 1 = job.device.idle.size := by
  cases hands with
  | @intro placement unit u g rest wavefronts _ _ _ _ _ resident free =>
      rcases owned.idleListed with ⟨idle, listed⟩
      have member : unit ∈ idle :=
        (listed.member unit).mp ((owned.idle unit).mpr ⟨u, resident, free⟩)
      have size : (job.device.idle.unlink unit).size = (idle.erase unit).length :=
        (listed.unlink_erase member).size
      have positive : 0 < idle.length := List.length_pos_of_mem member
      rw [List.length_erase_of_mem member] at size
      rw [listed.size]
      show (job.device.idle.unlink unit).size + 1 = _
      omega

/-- What a dispatch finds: the group that has waited longest, and the idle unit that is picked for
it. -/
structure Deal (job : Job ι μ π) (placement : π) (unit : Nat) (u : ComputeUnit) (g : WorkGroup)
    (rest : List Nat) (wavefronts : List Wavefront) : Prop where
  picked : Placement.pick job.device.placement job.device.idle = (some unit, placement)
  reliable : Placement.Reliable placement
  isIdle : job.device.idle.contains unit = true
  pending : job.launch.pending = g.id :: rest
  found : job.launch.groups[g.id]? = some g
  waits : g.phase = .pending
  listed : job.launch.wavefrontsOf g.id = .ok wavefronts
  resident : job.device.cluster.units[unit]? = some u
  free : u.group = none

/-- As long as some unit is idle and some group waits, a dispatch finds both. -/
theorem Owned.deal (owned : job.Owned) (possible : job.canDispatch = true) :
    ∃ placement unit u g rest wavefronts, job.Deal placement unit u g rest wavefronts := by
  simp only [canDispatch, NdRange.hasPending, Bool.and_eq_true, Bool.not_eq_true'] at possible
  rcases owned.idleListed with ⟨idle, listed⟩
  have some_idle : idle ≠ [] := by
    have here := possible.1
    rw [listed.isEmpty_eq] at here
    simpa using here
  rcases owned.placement.pick listed some_idle with ⟨unit, member, placement, picked, reliable⟩
  have isIdle : job.device.idle.contains unit = true := (listed.member unit).mpr member
  rcases (owned.idle unit).mp isIdle with ⟨u, resident, free⟩
  rcases pending : job.launch.pending with _ | ⟨id, rest⟩
  · simp [pending] at possible
  · rcases (owned.launch.waiting id).mp (by simp [pending]) with ⟨g, found, waits⟩
    cases owned.launch.named id g found
    exact ⟨_, _, _, _, _, _, picked, reliable, isIdle, pending, found, waits,
      NdRange.wavefrontsOf_of_found found, resident, free⟩

section Deal

variable {placement : π} {u : ComputeUnit} {g : WorkGroup} {rest : List Nat}
  {wavefronts : List Wavefront} (deal : job.Deal placement unit u g rest wavefronts)

include deal

theorem Deal.hands : job.Hands (job.handed placement unit u g rest wavefronts) :=
  .intro deal.reliable deal.pending deal.found deal.waits deal.listed deal.resident deal.free

theorem Deal.outcome :
    Job.dispatchOne.outcome job = (.ok true, job.handed placement unit u g rest wavefronts) :=
  dispatchOne_outcome deal.picked deal.isIdle deal.pending deal.found deal.waits deal.listed
    deal.resident deal.free

end Deal

/-- As long as some unit is idle and some group waits, one more group is dispatched. -/
theorem Owned.dispatchOne (owned : job.Owned) (possible : job.canDispatch = true) :
    ∃ after, job.Hands after ∧ dispatchOne.outcome job = (.ok true, after) := by
  obtain ⟨_, _, _, _, _, _, deal⟩ := owned.deal possible
  exact ⟨_, deal.hands, deal.outcome⟩

/-- Dispatch stops when no unit is idle or no group waits. -/
theorem dispatchUpTo_of_full (full : job.canDispatch = false) (limit : Nat) :
    (dispatchUpTo limit).outcome job = (.ok 0, job) := by
  cases limit with
  | zero => rfl
  | succ limit => simp [Job.dispatchUpTo, Attempt.outcome_bind, full]

/-- Otherwise it goes on after each group. -/
theorem dispatchUpTo_succ {next : Job ι μ π} {limit count : Nat}
    (possible : job.canDispatch = true) (first : Job.dispatchOne.outcome job = (.ok true, next))
    (others : (dispatchUpTo limit).outcome next = (.ok count, after)) :
    (dispatchUpTo (limit + 1)).outcome job = (.ok (count + 1), after) := by
  simp [Job.dispatchUpTo, Attempt.outcome_bind, Attempt.outcome_map, possible, first, others]

theorem Owned.dispatchUpTo {limit : Nat} (owned : job.Owned)
    (enough : job.device.idle.size ≤ limit) :
    ∃ count after, (dispatchUpTo limit).outcome job = (.ok count, after) ∧
      Relation.ReflTransGen Hands job after ∧ after.canDispatch = false := by
  induction limit generalizing job with
  | zero =>
      have none_idle : job.device.idle.size = 0 := Nat.le_zero.mp enough
      refine ⟨0, job, rfl, .refl, ?_⟩
      simp [canDispatch, UnitSet.isEmpty, none_idle]
  | succ limit ih =>
      cases possible : job.canDispatch with
      | false => exact ⟨0, job, dispatchUpTo_of_full possible _, .refl, possible⟩
      | true =>
          rcases owned.dispatchOne possible with ⟨next, hands, first⟩
          have size := hands.size_idle owned
          rcases ih (hands.owned owned) (by omega) with ⟨count, after, others, path, rests⟩
          exact ⟨count + 1, after, dispatchUpTo_succ possible first others, .head hands path, rests⟩

/-- Dispatch hands out groups until no unit is idle or no group waits. -/
theorem Owned.dispatch (owned : job.Owned) :
    ∃ count after, dispatch.outcome job = (.ok count, after) ∧
      Relation.ReflTransGen Hands job after ∧ after.canDispatch = false :=
  owned.dispatchUpTo (Nat.le_refl _)

/-- What a busy unit finds: it holds a group, and the group runs on it. -/
structure Task (job : Job ι μ π) (unit : Nat) (u : ComputeUnit) (g : WorkGroup) : Prop where
  isBusy : job.device.busy.contains unit = true
  resident : job.device.cluster.units[unit]? = some u
  sound : u.Sound
  held : u.group = some g.id
  found : job.launch.groups[g.id]? = some g
  runs : g.phase = .running unit

theorem Owned.task (owned : job.Owned) (busy : job.device.busy.contains unit = true) :
    ∃ u g, job.Task unit u g := by
  rcases (owned.busy unit).mp busy with ⟨group, holds⟩
  rcases (owned.owners unit group).mp holds with ⟨g, found, runs⟩
  rcases holds with ⟨u, resident, held⟩
  cases owned.launch.named group g found
  exact ⟨u, g, busy, resident, owned.sound unit u resident, held, found, runs⟩

variable [InstructionModel ι] [MemoryService μ]

theorem release_of_not_drained {u : ComputeUnit} (running : u.isDrained = false) :
    u.release.2 = u := by
  unfold ComputeUnit.release
  split
  · rw [running]
    rfl
  · rfl

omit [Placement π] in
/-- A unit that works changes itself only, and comes out relieved if it has finished. -/
theorem getElem?_stepped {u : ComputeUnit} {g : WorkGroup}
    (resident : job.device.cluster.units[unit]? = some u) (other : Nat) :
    (job.stepped unit u g).device.cluster.units[other]? =
      if other = unit then
        some ((job.bench u).cycled u.order job.device.cycle g.id).unit.release.2
      else job.device.cluster.units[other]? := by
  let bench := (job.bench u).cycled u.order job.device.cycle g.id
  have worked : ∀ other, (job.worked unit bench).device.cluster.units[other]? =
      if other = unit then some bench.unit else job.device.cluster.units[other]? :=
    getElem?_setUnit resident
  rcases job.stepped_cases unit u g with ⟨drained, stepped⟩ | ⟨running, stepped⟩
  · have relieved : ((job.worked unit bench).relieved unit bench.unit
        g).device.cluster.units[other]? = if other = unit then some bench.unit.release.2
        else (job.worked unit bench).device.cluster.units[other]? :=
      getElem?_setUnit ((worked unit).trans (if_pos rfl)) other
    rw [stepped, relieved, worked]
    by_cases same : other = unit
    · rw [if_pos same, if_pos same]
    · rw [if_neg same, if_neg same, if_neg same]
  · rw [stepped, worked, release_of_not_drained running]

omit [Placement π] in
/-- The group of a unit that has worked is done if the unit is drained. -/
theorem getElem?_groups_stepped {u : ComputeUnit} {g : WorkGroup}
    (found : job.launch.groups[g.id]? = some g) (other : Nat) :
    (job.stepped unit u g).launch.groups[other]? =
      if other = g.id ∧
          ((job.bench u).cycled u.order job.device.cycle g.id).unit.isDrained = true then
        some { g with phase := .done unit }
      else job.launch.groups[other]? := by
  rcases job.stepped_cases unit u g with ⟨drained, stepped⟩ | ⟨running, stepped⟩
  · rw [stepped, drained]
    simp only [and_true]
    exact NdRange.getElem?_finish found other
  · rw [stepped, running]
    simp [Job.worked]

theorem Works.owned (works : job.Works unit after) (owned : job.Owned) : after.Owned := by
  cases works with
  | @intro u g resident held found runs =>
      let bench := (job.bench u).cycled u.order job.device.cycle g.id
      have worked : (job.worked unit bench).Owned :=
        owned.worked resident (Bench.sound_cycled _ _ _ (owned.sound unit u resident))
          (Bench.cycled_id ..) (Bench.cycled_group ..)
      have settled : (job.worked unit bench).device.cluster.units[unit]? = some bench.unit := by
        rw [Job.worked, Cluster.settle, getElem?_setUnit resident, if_pos rfl]
      rcases job.stepped_cases unit u g with ⟨drained, stepped⟩ | ⟨-, stepped⟩
      · rw [stepped]
        exact worked.relieved found runs settled ((Bench.cycled_group ..).trans held) drained
      · rw [stepped]
        exact worked

omit [Placement π] in
theorem Works.getElem?_units (works : job.Works unit after) {other : Nat} (differs : other ≠ unit) :
    after.device.cluster.units[other]? = job.device.cluster.units[other]? := by
  cases works with
  | intro resident _ _ _ => rw [getElem?_stepped resident, if_neg differs]

/-- A unit that works has no influence on whether others are busy. -/
theorem Works.busy_iff (works : job.Works unit after) (owned : job.Owned) {other : Nat}
    (differs : other ≠ unit) :
    after.device.busy.contains other = true ↔ job.device.busy.contains other = true := by
  rw [(works.owned owned).busy, owned.busy]
  unfold Holds
  rw [works.getElem?_units differs]

section Task

variable {u : ComputeUnit} {g : WorkGroup} (task : job.Task unit u g)

include task

omit [Placement π]

theorem Task.works : job.Works unit (job.stepped unit u g) :=
  .intro task.resident task.held task.found task.runs

theorem Task.outcome : (Job.stepUnit unit).outcome job = (.ok (), job.stepped unit u g) :=
  stepUnit_outcome task.isBusy task.resident task.sound task.held task.found task.runs

end Task

/-- A busy unit can always work. -/
theorem Owned.stepUnit (owned : job.Owned) (busy : job.device.busy.contains unit = true) :
    ∃ after, job.Works unit after ∧ (stepUnit unit).outcome job = (.ok (), after) := by
  obtain ⟨_, _, task⟩ := owned.task busy
  exact ⟨_, task.works, task.outcome⟩

/-! ## A cycle of the device -/

/-- The cycle counter of the device goes on. -/
def ticked (job : Job ι μ π) : Job ι μ π :=
  { job with device := { job.device with cycle := job.device.cycle + 1 } }

/-- Units work one after the other. -/
inductive Sweeps : List Nat → Job ι μ π → Job ι μ π → Prop
  | nil (job : Job ι μ π) : Sweeps [] job job
  | cons {unit : Nat} {rest : List Nat} {job next after : Job ι μ π}
      (works : job.Works unit next) (sweeps : Sweeps rest next after) :
    Sweeps (unit :: rest) job after

omit [InstructionModel ι] [MemoryService μ] in
theorem Owned.ticked (owned : job.Owned) : job.ticked.Owned :=
  ⟨owned.sound, owned.numbered, owned.launch, owned.placement, owned.idleListed, owned.busyListed,
    owned.idleCapacity, owned.busyCapacity, owned.idle, owned.busy, owned.owners, owned.counted⟩

theorem Owned.forM_stepUnit {units : List Nat} (owned : job.Owned) (distinct : units.Nodup)
    (busy : ∀ unit ∈ units, job.device.busy.contains unit = true) :
    ∃ after, Sweeps units job after ∧
      (units.forM Job.stepUnit).outcome job = (.ok (), after) := by
  induction units generalizing job with
  | nil => exact ⟨job, .nil job, rfl⟩
  | cons unit rest ih =>
      rcases owned.stepUnit (busy unit (List.mem_cons_self ..)) with ⟨next, works, first⟩
      have still : ∀ other ∈ rest, next.device.busy.contains other = true := by
        intro other member
        have differs : other ≠ unit := by
          rintro rfl
          exact (List.nodup_cons.mp distinct).1 member
        exact (works.busy_iff owned differs).mpr (busy other (List.mem_cons_of_mem _ member))
      obtain ⟨after, sweeps, others⟩ :=
        ih (works.owned owned) (List.nodup_cons.mp distinct).2 still
      refine ⟨after, .cons works sweeps, ?_⟩
      show (Job.stepUnit unit >>= fun _ => rest.forM Job.stepUnit).outcome job = _
      rw [Attempt.outcome_bind_of_ok first]
      exact others

omit [InstructionModel ι] [MemoryService μ] in
/-- Each busy unit is listed once. -/
theorem Owned.busy_toList (owned : job.Owned) :
    job.device.busy.toList.Nodup ∧
      ∀ unit, unit ∈ job.device.busy.toList ↔ job.device.busy.contains unit = true := by
  obtain ⟨busy, listed⟩ := owned.busyListed
  rw [listed.toList_eq]
  exact ⟨listed.distinct, fun unit => (listed.member unit).symm⟩

/-- In a cycle of the device every unit works that is busy when the cycle begins. -/
theorem Owned.advance (owned : job.Owned) :
    ∃ after, Sweeps job.device.busy.toList job.ticked after ∧
      advance.outcome job = (.ok (), after) := by
  obtain ⟨distinct, members⟩ := owned.busy_toList
  rcases owned.ticked.forM_stepUnit distinct (fun unit => (members unit).mp) with
    ⟨after, sweeps, swept⟩
  refine ⟨after, sweeps, ?_⟩
  rw [Job.advance, Attempt.outcome_bind]
  exact swept

theorem Sweeps.owned {units : List Nat} (sweeps : Sweeps units job after) (owned : job.Owned) :
    after.Owned := by
  induction sweeps with
  | nil => exact owned
  | cons works _ ih => exact ih (works.owned owned)

/-! ## What a run leaves alone -/

/-- Both jobs are in the same run: the device is the same, is at work on the same launch, and that
launch has the same shape. -/
structure SameRun (after job : Job ι μ π) : Prop where
  active : after.device.active = job.device.active
  config : after.device.config = job.device.config
  shape : after.launch.SameShape job.launch

omit [Placement π] [InstructionModel ι] [MemoryService μ] in
theorem SameRun.refl (job : Job ι μ π) : job.SameRun job := ⟨rfl, rfl, .refl _⟩

omit [Placement π] [InstructionModel ι] [MemoryService μ] in
theorem SameRun.trans {a b c : Job ι μ π} (first : a.SameRun b) (second : b.SameRun c) :
    a.SameRun c where
  active := first.active.trans second.active
  config := first.config.trans second.config
  shape := first.shape.trans second.shape

omit [InstructionModel ι] [MemoryService μ] in
theorem Hands.sameRun (hands : job.Hands after) : after.SameRun job := by
  cases hands with
  | intro _ _ found _ _ _ _ => exact ⟨rfl, rfl, NdRange.sameShape_start found⟩

omit [InstructionModel ι] [MemoryService μ] in
theorem Hands.cycle_eq (hands : job.Hands after) : after.device.cycle = job.device.cycle := by
  cases hands with
  | intro _ _ _ _ _ _ _ => rfl

omit [Placement π] in
theorem Works.sameRun (works : job.Works unit after) : after.SameRun job := by
  cases works with
  | @intro u g _ _ found _ =>
      rcases job.stepped_cases unit u g with ⟨-, stepped⟩ | ⟨-, stepped⟩
      · rw [stepped]
        exact ⟨rfl, rfl, NdRange.sameShape_finish found⟩
      · rw [stepped]
        exact ⟨rfl, rfl, .refl _⟩

omit [Placement π] in
theorem Works.cycle_eq (works : job.Works unit after) : after.device.cycle = job.device.cycle := by
  cases works with
  | @intro u g _ _ _ _ =>
      rcases job.stepped_cases unit u g with ⟨-, stepped⟩ | ⟨-, stepped⟩ <;> rw [stepped] <;> rfl

omit [InstructionModel ι] [MemoryService μ] in
theorem Hands.size_units (hands : job.Hands after) :
    after.device.cluster.units.size = job.device.cluster.units.size := by
  cases hands with
  | intro _ _ _ _ _ _ _ => exact Array.size_setIfInBounds

omit [Placement π] in
theorem Works.size_units (works : job.Works unit after) :
    after.device.cluster.units.size = job.device.cluster.units.size := by
  cases works with
  | @intro u g _ _ _ _ =>
      rcases job.stepped_cases unit u g with ⟨-, stepped⟩ | ⟨-, stepped⟩
      · rw [stepped]
        exact Array.size_setIfInBounds.trans Array.size_setIfInBounds
      · rw [stepped]
        exact Array.size_setIfInBounds

omit [Placement π] in
theorem Sweeps.size_units {units : List Nat} (sweeps : Sweeps units job after) :
    after.device.cluster.units.size = job.device.cluster.units.size := by
  induction sweeps with
  | nil => rfl
  | cons works _ ih => exact ih.trans works.size_units

omit [Placement π] in
theorem Sweeps.sameRun {units : List Nat} (sweeps : Sweeps units job after) :
    after.SameRun job := by
  induction sweeps with
  | nil => exact .refl _
  | cons works _ ih => exact ih.trans works.sameRun

omit [Placement π] in
theorem Sweeps.cycle_eq {units : List Nat} (sweeps : Sweeps units job after) :
    after.device.cycle = job.device.cycle := by
  induction sweeps with
  | nil => rfl
  | cons works _ ih => exact ih.trans works.cycle_eq

/-! ## The parts of a round -/

omit [InstructionModel ι] [MemoryService μ] in
/-- Where nothing can be dispatched, nothing is. -/
theorem place_of_placed (placed : job.canDispatch = false) :
    place.outcome job = (.ok (), job) := by
  rw [place_outcome, placed]
  rfl

omit [InstructionModel ι] [MemoryService μ] in
/-- A round begins with dispatch, as far as it goes. -/
theorem Owned.place (owned : job.Owned) :
    ∃ placed, place.outcome job = (.ok (), placed) ∧ Relation.ReflTransGen Hands job placed ∧
      placed.canDispatch = false := by
  cases possible : job.canDispatch with
  | false => exact ⟨job, place_of_placed possible, .refl, possible⟩
  | true =>
      rcases owned.dispatch with ⟨count, placed, dispatched, path, rests⟩
      refine ⟨placed, ?_, path, rests⟩
      rw [place_outcome, possible, if_pos rfl, Attempt.outcome_bind_of_ok dispatched]
      rfl

omit [InstructionModel ι] [MemoryService μ] in
theorem Owned.of_hands (owned : job.Owned) (path : Relation.ReflTransGen Hands job after) :
    after.Owned ∧ after.SameRun job ∧ after.device.cycle = job.device.cycle := by
  induction path with
  | refl => exact ⟨owned, .refl _, rfl⟩
  | tail _ hands ih =>
      rcases ih with ⟨between, same, cycle⟩
      exact ⟨hands.owned between, hands.sameRun.trans same, hands.cycle_eq.trans cycle⟩

theorem Owned.of_sweeps {units : List Nat} (owned : job.Owned)
    (sweeps : Sweeps units job.ticked after) :
    after.Owned ∧ after.SameRun job ∧ after.device.cycle = job.device.cycle + 1 :=
  ⟨sweeps.owned owned.ticked, sweeps.sameRun.trans ⟨rfl, rfl, .refl _⟩, sweeps.cycle_eq⟩

end Job

end Accelerator
