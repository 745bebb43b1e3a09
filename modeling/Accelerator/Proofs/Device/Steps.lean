import Accelerator.Proofs.Device.Operations
import Accelerator.Proofs.Sink
import Accelerator.Proofs.VisitOrder

/-!
# Units stepped by a driver

A driver can step the busy units of a device one by one, in an order of its own. The units and their
services then go through the states of a sweep of the cluster in that order, and what becomes of the
rest of the job can be told from what the sweep records: the groups that finished are done, their
units are idle again, in the order in which they finished, and the sink has been told of everything
(`Swept`). Which units finish is settled before the first step (`finished_sweep`).
-/

namespace Accelerator

/-! ## What a sweep records -/

/-- The event that tells of a finish. -/
def Finish.event (f : Finish) : TraceEvent where
  cycle := f.cycle
  unit := f.unit
  group := f.group
  action := .complete

namespace Sweep

variable {ι μ : Type} {s t : Sweep ι μ}

/-- What a sink is told of a sweep. It may not want to know of single stages. -/
def told (s : Sweep ι μ) (stages : Bool) : List (Option TraceEvent) :=
  (if stages then s.events.toList.map some else []) ++ s.finished.toList.map fun f => some f.event

theorem Same.told (same : s.Same t) (stages : Bool) : (s.told stages).Perm (t.told stages) := by
  refine List.Perm.append ?_ (same.finished.map _)
  cases stages with
  | false => exact .refl _
  | true => exact same.events.map some

variable [InstructionModel ι] [MemoryService μ] {P : μ → Prop}

section Record

omit [MemoryService μ]

variable (s) (cycle id : Nat) (u : ComputeUnit) (reply : Option Nat × μ)

/-- A busy unit and its services after a cycle, before a finished group is taken back. -/
def afterCycle : Bench ι μ where
  unit := u.carriedOn s.cluster.isa cycle reply.1
  isa := s.cluster.isa
  memory := reply.2
  events := u.reported s.cluster.isa cycle reply.1

/-- A visit adds the events and the finish of its unit. -/
theorem told_record (stages : Bool) :
    (s.told stages ++ ((if stages then (u.reported s.cluster.isa cycle reply.1).map some else []) ++
      (u.finish s.cluster.isa cycle id reply.1).map fun f => some f.event)).Perm
      ((s.record cycle id u reply).told stages) := by
  simp only [told, record, Array.toList_append, List.map_append]
  cases stages with
  | false => simp
  | true =>
      simp only [if_true, List.append_assoc]
      refine List.Perm.append_left _ ?_
      rw [← List.append_assoc, ← List.append_assoc]
      exact List.perm_append_comm.append_right _

variable {u} {group : Nat} (held : u.group = some group)

include held

/-- A unit that has not finished goes on as it is. -/
theorem record_of_running (running : (s.afterCycle cycle u reply).unit.isDrained = false) :
    u.finish s.cluster.isa cycle id reply.1 = [] ∧
      (s.record cycle id u reply).cluster = s.cluster.settle id (s.afterCycle cycle u reply) := by
  have still : ¬ (u.carriedOn s.cluster.isa cycle reply.1).isDrained = true :=
    ne_true_of_eq_false running
  constructor
  · rw [ComputeUnit.finish, held]
    exact if_neg still
  · rw [record, ComputeUnit.afterVisit, held]
    dsimp only
    rw [if_neg still]
    rfl

/-- A unit that has finished gives its group back. -/
theorem record_of_drained (drained : (s.afterCycle cycle u reply).unit.isDrained = true) :
    u.finish s.cluster.isa cycle id reply.1 = [{ cycle, unit := id, group }] ∧
      (s.record cycle id u reply).cluster = (s.cluster.settle id (s.afterCycle cycle u reply)).setUnit
        id (s.afterCycle cycle u reply).unit.release.2 := by
  have ended : (u.carriedOn s.cluster.isa cycle reply.1).isDrained = true := drained
  constructor
  · rw [ComputeUnit.finish, held]
    exact if_pos ended
  · rw [record, ComputeUnit.afterVisit, held]
    dsimp only
    rw [if_pos ended]
    simp [Cluster.settle, Cluster.setUnit, afterCycle]

end Record

/-- The finish to which the visit of a unit leads. -/
def finishOf (s : Sweep ι μ) (cycle id : Nat) : List Finish :=
  match s.cluster.units[id]? with
  | none => []
  | some u => u.finish s.cluster.isa cycle id
      (Bench.memoryCall s.cluster.memory cycle (u.requested s.cluster.isa cycle)).1

theorem finished_visited (s : Sweep ι μ) (cycle id : Nat) :
    (s.visited cycle id).finished.toList = s.finished.toList ++ s.finishOf cycle id := by
  rcases found : s.cluster.units[id]? with _ | u
  · rw [visited_of_absent found, finishOf, found, List.append_nil]
  · rw [visited_of_present found, finishOf, found, record, Array.toList_append]

/-- The visit of a unit has no influence on whether others finish. -/
theorem finishOf_visited_of_ne (impartial : MemoryService.Impartial μ P)
    (memory : P s.cluster.memory) (cycle : Nat) {id other : Nat} (differs : id ≠ other) :
    (s.visited cycle id).finishOf cycle other = s.finishOf cycle other := by
  rw [finishOf, getElem?_visited_of_ne s cycle differs, finishOf]
  rcases s.cluster.units[other]? with _ | v
  · rfl
  · rcases found : s.cluster.units[id]? with _ | u
    · rw [visited_of_absent found]
    · rw [visited_of_present found]
      exact congrArg (v.finish s.cluster.isa cycle other)
        (memoryCall_answer impartial memory cycle _ _)

/-- Which units finish in a cycle is settled before the first visit. -/
theorem finished_sweep (impartial : MemoryService.Impartial μ P) (ready : s.Ready P) (cycle : Nat)
    {order : List Nat} (distinct : order.Nodup) :
    (order.foldl (visited cycle) s).finished.toList =
      s.finished.toList ++ order.flatMap (s.finishOf cycle) := by
  induction order generalizing s with
  | nil => simp
  | cons id rest ih =>
      obtain ⟨fresh, distinct⟩ := List.nodup_cons.mp distinct
      have others : rest.flatMap ((s.visited cycle id).finishOf cycle) =
          rest.flatMap (s.finishOf cycle) := by
        refine List.flatMap_congr fun other member => ?_
        refine finishOf_visited_of_ne impartial ready.memory cycle ?_
        rintro rfl
        exact fresh member
      rw [List.foldl_cons, ih (ready.visited impartial cycle id) distinct, finished_visited, others,
        List.flatMap_cons, List.append_assoc]

end Sweep

/-! ## Steps and visits -/

/-- The unit finishes its group if it works now. -/
def Device.finishes {ι μ π : Type} [InstructionModel ι] [MemoryService μ] (device : Device ι μ π)
    (unit : Nat) : Bool :=
  match device.cluster.stepUnit device.cycle unit with
  | .ok (.finished _, _) => true
  | _ => false

namespace Job

variable {ι μ π : Type} [InstructionModel ι] [MemoryService μ] [Placement π]
  {origin job : Job ι μ π} {s : Sweep ι μ}

/-- Units of `origin` have been stepped, and a sweep that visits the same units has recorded `s`. -/
structure Swept (origin : Job ι μ π) (s : Sweep ι μ) (job : Job ι μ π) : Prop where
  owned : job.Owned
  cluster : job.device.cluster = s.cluster
  cycle : job.device.cycle = origin.device.cycle
  placement : job.device.placement = origin.device.placement
  launch : job.launch = origin.launch.closeAll (s.finished.toList.map (·.group))
  idle : ∃ idle, origin.device.idle.Lists idle ∧
    job.device.idle.Lists (idle ++ s.finished.toList.map (·.unit))
  sink : ∃ entries, entries.Perm (s.told origin.device.sink.wantsStageEvents) ∧
    job.device.sink = origin.device.sink.replay entries

omit [InstructionModel ι] [MemoryService μ] in
theorem Owned.swept (owned : job.Owned) : Swept job { cluster := job.device.cluster } job where
  owned
  cluster := rfl
  cycle := rfl
  placement := rfl
  launch := rfl
  idle := by
    obtain ⟨idle, listed⟩ := owned.idleListed
    exact ⟨idle, listed, by simpa using listed⟩
  sink := ⟨[], by simp [Sweep.told], rfl⟩

omit [InstructionModel ι] [MemoryService μ] in
/-- Units become idle in the order in which they finish. -/
theorem Swept.listed_idle (swept : Swept origin s job) {idle : List Nat}
    (before : origin.device.idle.Lists idle) :
    job.device.idle.Lists (idle ++ s.finished.toList.map (·.unit)) := by
  obtain ⟨idle', before', after⟩ := swept.idle
  rwa [← before.toList_eq, before'.toList_eq]

/-- A step of a busy unit is a visit of it. -/
theorem Swept.stepUnit (stateless : InstructionModel.Stateless ι) (swept : Swept origin s job)
    {unit : Nat} (busy : job.device.busy.contains unit = true) :
    ∃ after, (Job.stepUnit unit).outcome job = (.ok (), after) ∧ job.Works unit after ∧
      Swept origin (s.visited origin.device.cycle unit) after := by
  have owned := swept.owned
  obtain ⟨u, g, task⟩ := owned.task busy
  have held := task.held
  refine ⟨_, task.outcome, task.works, ?_⟩
  have owned' := task.works.owned owned
  let now := origin.device.cycle
  let reply := Bench.memoryCall s.cluster.memory now (u.requested s.cluster.isa now)
  let bench := s.afterCycle now u reply
  have stepped : job.stepped unit u g =
      if bench.unit.isDrained then (job.worked unit bench).relieved unit bench.unit g
      else job.worked unit bench := by
    have cycled : (job.bench u).cycled u.order job.device.cycle g.id = bench := by
      rw [Job.bench, swept.cluster, swept.cycle]
      exact Sweep.cycled_eq stateless _ _ _ held
    rw [Job.stepped, cycled]
  have settled : job.device.cluster.settle unit bench = s.cluster.settle unit bench := by
    rw [swept.cluster]
  obtain ⟨entries, perm, told⟩ := swept.sink
  have more := (perm.append_right _).trans
    (s.told_record now unit u reply origin.device.sink.wantsStageEvents)
  have stages := Sink.recordStages_replay origin.device.sink entries bench.events
  rw [← told] at stages
  rw [show s.visited origin.device.cycle unit = s.record now unit u reply from
    Sweep.visited_of_present (swept.cluster ▸ task.resident)]
  cases drained : bench.unit.isDrained with
  | false =>
      obtain ⟨unfinished, cluster⟩ := s.record_of_running now unit reply held drained
      rw [stepped, drained, if_neg Bool.false_ne_true] at owned' ⊢
      have same : (s.record now unit u reply).finished.toList = s.finished.toList := by
        rw [Sweep.record, unfinished, Array.append_empty]
      rw [unfinished, List.map_nil, List.append_nil] at more
      exact {
        owned := owned'
        cluster := settled.trans cluster.symm
        cycle := swept.cycle
        placement := swept.placement
        launch := same ▸ swept.launch
        idle := same ▸ swept.idle
        sink := ⟨_, more, stages⟩ }
  | true =>
      obtain ⟨finished, cluster⟩ := s.record_of_drained now unit reply held drained
      rw [stepped, drained, if_pos rfl] at owned' ⊢
      have grown : (s.record now unit u reply).finished.toList =
          s.finished.toList ++ [{ cycle := now, unit, group := g.id }] := by
        rw [Sweep.record, finished, Array.toList_append]
      rw [finished, ← List.append_assoc] at more
      refine {
        owned := owned'
        cluster := (congrArg (Cluster.setUnit · unit bench.unit.release.2) settled).trans cluster.symm
        cycle := swept.cycle
        placement := swept.placement
        launch := ?_, idle := ?_, sink := ⟨_, more, ?_⟩ }
      · rw [grown, List.map_append, NdRange.closeAll, List.foldl_append]
        exact (NdRange.finish_eq_close task.found task.runs).trans
          (congrArg (NdRange.close · g.id) swept.launch)
      · obtain ⟨idle, before, listed⟩ := swept.idle
        obtain ⟨_, -, listed', -, -, stranger, inside⟩ := owned.lists_of_holds ⟨u, task.resident, held⟩
        refine ⟨idle, before, ?_⟩
        rw [grown, List.map_append, ← List.append_assoc]
        refine listed.push inside fun member => stranger ?_
        exact (listed'.member unit).mp ((listed.member unit).mpr member)
      · have cycle : (job.worked unit bench).device.cycle = now := swept.cycle
        show (job.device.sink.recordStages bench.events).record _ = _
        rw [stages, Sink.record_replay, cycle]
        rfl

/-- Steps of busy units, one after the other, are a sweep in the same order. -/
theorem Swept.forM_stepUnit (stateless : InstructionModel.Stateless ι) (swept : Swept origin s job)
    {order : List Nat} (distinct : order.Nodup)
    (busy : ∀ unit ∈ order, job.device.busy.contains unit = true) :
    ∃ after, (order.forM Job.stepUnit).outcome job = (.ok (), after) ∧
      Swept origin (order.foldl (Sweep.visited origin.device.cycle) s) after := by
  induction order generalizing job s with
  | nil => exact ⟨job, rfl, swept⟩
  | cons unit rest ih =>
      obtain ⟨fresh, distinct⟩ := List.nodup_cons.mp distinct
      obtain ⟨next, stepped, works, swept'⟩ :=
        swept.stepUnit stateless (busy unit (List.mem_cons_self ..))
      have still : ∀ other ∈ rest, next.device.busy.contains other = true := by
        intro other member
        refine (works.busy_iff swept.owned ?_).mpr (busy other (List.mem_cons_of_mem _ member))
        rintro rfl
        exact fresh member
      obtain ⟨after, others, swept''⟩ := ih swept' distinct still
      exact ⟨after, (Attempt.outcome_bind_of_ok stepped).trans others, swept''⟩

theorem Owned.units_finishOf (stateless : InstructionModel.Stateless ι) (owned : job.Owned)
    {unit : Nat} (busy : job.device.busy.contains unit = true) :
    (({ cluster := job.device.cluster } : Sweep ι μ).finishOf job.device.cycle unit).map (·.unit) =
      (Option.guard job.device.finishes unit).toList := by
  obtain ⟨group, u, resident, held⟩ := (owned.busy unit).mp busy
  let s : Sweep ι μ := { cluster := job.device.cluster }
  have stepped := Sweep.stepUnit_eq (s := s) stateless job.device.cycle resident
    (owned.sound unit u resident) held
  rw [Sweep.finishOf, resident, Option.guard, Device.finishes]
  dsimp only [s] at stepped ⊢
  rw [stepped, ComputeUnit.finish, held]
  dsimp only
  split <;> rfl

/-- Every busy unit can be stepped once, in any order. The units that finish are idle again in the
order in which they were stepped. -/
theorem Owned.swept_of_perm {P : μ → Prop} (stateless : InstructionModel.Stateless ι)
    (impartial : MemoryService.Impartial μ P) (owned : job.Owned)
    (memory : P job.device.cluster.memory) {order : List Nat}
    (perm : order.Perm job.device.busy.toList) :
    let start : Sweep ι μ := { cluster := job.device.cluster }
    let s := order.foldl (Sweep.visited job.device.cycle) start
    ∃ after, (order.forM Job.stepUnit).outcome job = (.ok (), after) ∧ Swept job s after ∧
      s.finished.toList.map (·.unit) = order.filter job.device.finishes := by
  intro start s
  obtain ⟨busy, listed⟩ := owned.busyListed
  rw [listed.toList_eq] at perm
  have distinct : order.Nodup := perm.nodup_iff.mpr listed.distinct
  have members : ∀ unit ∈ order, job.device.busy.contains unit = true :=
    fun unit member => (listed.member unit).mpr (perm.subset member)
  obtain ⟨after, stepped, swept⟩ := owned.swept.forM_stepUnit stateless distinct members
  refine ⟨after, stepped, swept, ?_⟩
  have finished := Sweep.finished_sweep impartial ⟨owned.sound, memory⟩ job.device.cycle distinct
    (s := start)
  rw [finished, List.nil_append, List.map_flatMap,
    List.flatMap_congr fun unit member => owned.units_finishOf stateless (members unit member),
    ← List.filterMap_eq_flatMap_toList, List.filterMap_eq_filter]

end Job

end Accelerator
