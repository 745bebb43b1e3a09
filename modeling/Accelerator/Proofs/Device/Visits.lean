import Accelerator.Proofs.Device.Chronicle
import Accelerator.Proofs.Device.Rounds
import Accelerator.Proofs.Pipeline.Turns

/-!
# Watching a run

A run visits one unit after the other, and in every cycle the busy ones again. `Watched` is a job
with notes of the visits so far. `Watched.advance` is a cycle in which each visit is noted, and in all
other respects it is the cycle itself (`Watched.matches_advance`).

In a visit a unit works for one cycle. What its lanes are given shows in the row of lanes before and
after it, and what memory is asked for shows in a memory that writes down its requests.
-/

namespace Accelerator

variable {ι μ π : Type}

/-! ## Visits -/

/-- A memory that writes down what it is asked for. -/
structure Recorder (μ : Type) where
  memory : μ
  requests : List MemoryRequest := []

instance [MemoryService μ] : MemoryService (Recorder μ) where
  access r request now :=
    (MemoryService.access r.memory request now).map id fun memory =>
      { memory, requests := r.requests ++ [request] }

/-- A unit that is going to work, with the program and the memory that it finds. -/
structure Visit (ι μ : Type) where
  unit : ComputeUnit
  isa : ι
  memory : μ
  cycle : Nat

/-- Something that memory is asked for, and the position of the instruction for which it is. -/
structure Asked where
  pc : Option Nat
  request : MemoryRequest

/-- What memory is asked for in a turn. -/
def Share.asked (s : Share) (p : SyntheticProgram) (lanes : Nat) : List Asked :=
  (s.request? p lanes).toList.map fun request => { pc := some s.pc, request }

namespace Visit

/-- The instruction that the lanes work on: that of the slot in the execute stage or, when there is
none, of the slot that comes next. -/
def pc (v : Visit ι μ) : Option Nat :=
  ((v.unit.executing.map (·.slot)).or v.unit.latches.read.current).map (·.pc)

section Step

variable [InstructionModel ι] [MemoryService μ]

/-- What the lanes are given. -/
def issues (v : Visit ι μ) : List Issue :=
  match ({ unit := v.unit, isa := v.isa, memory := v.memory } : Bench ι μ).step v.cycle with
  | .ok (_, after) => Issue.between v.unit.id v.pc v.unit.lanes after.unit.lanes
  | .error _ => []

/-- What memory is asked for. -/
def asked (v : Visit ι μ) : List Asked :=
  let bench : Bench ι (Recorder μ) :=
    { unit := v.unit, isa := v.isa, memory := { memory := v.memory } }
  match bench.step v.cycle with
  | .ok (_, after) => after.memory.requests.map fun request => { pc := v.pc, request }
  | .error _ => []

end Step

/-- The turn that is taken. -/
def share? (v : Visit ι μ) : Option Share := v.unit.group.bind (v.unit.share v.cycle)

/-! ## What happens in a visit -/

theorem pc_eq (v : Visit ι μ) : v.pc = (v.unit.atWork v.cycle).map (·.slot.pc) := by
  unfold pc ComputeUnit.atWork ComputeUnit.taken
  rcases executing : v.unit.executing with _ | ex
  · rcases held : v.unit.latches.read.current with _ | slot <;>
      simp [executing, held, ComputeUnit.plan_execute, Latches.isOccupied, Latches.get,
        Latch.isOccupied]
  · simp [executing, ComputeUnit.plan_execute]

section Turns

variable {v : Visit SyntheticProgram μ} {group : Nat}

/-- The turn that is taken is one of the instruction at work. -/
theorem pc_of_share? {s : Share} (taken : v.share? = some s) : v.pc = some s.pc := by
  obtain ⟨group, -, shared⟩ := Option.bind_eq_some_iff.mp taken
  obtain ⟨ex, filtered, mapped⟩ := Option.bind_eq_some_iff.mp shared
  obtain ⟨working, -⟩ := Option.filter_eq_some_iff.mp filtered
  obtain ⟨w, -, rfl⟩ := Option.map_eq_some_iff.mp mapped
  rw [pc_eq, working]
  rfl

variable [MemoryService μ]

/-- The lanes are given the items of the turn that is taken. -/
theorem issues_eq (sound : v.unit.Sound) (held : v.unit.group = some group) :
    v.issues = v.share?.toList.flatMap (·.issues v.unit.lanes.length) := by
  let bench : Bench SyntheticProgram μ := { unit := v.unit, isa := v.isa, memory := v.memory }
  have stepped : bench.step v.cycle = .ok ((bench.cycled v.unit.order v.cycle group).progress group,
      bench.cycled v.unit.order v.cycle group) := Bench.stepIn_eq sound rfl held v.unit.order v.cycle
  simp only [issues, stepped, bench]
  cases drained : v.unit.isDrained with
  | true =>
      rw [share?, held, Option.bind_some, ComputeUnit.share_of_isDrained drained, Bench.cycled,
        if_pos drained]
      refine List.filterMap_eq_nil_iff.mpr fun lane _ => ?_
      cases v.unit.lanes[lane]? <;> simp
  | false =>
      rw [Bench.cycled, if_neg (ne_true_of_eq_false drained), share?, held, pc_eq]
      exact sound.between_nextLanes v.cycle group

/-- Memory is asked for what the turn that is taken needs. -/
theorem asked_eq (sound : v.unit.Sound) (follows : v.unit.Follows v.isa)
    (held : v.unit.group = some group) :
    v.asked = v.share?.toList.flatMap (·.asked v.isa v.unit.lanes.length) := by
  let bench : Bench SyntheticProgram (Recorder μ) :=
    { unit := v.unit, isa := v.isa, memory := { memory := v.memory } }
  have stepped : bench.step v.cycle = .ok ((bench.cycled v.unit.order v.cycle group).progress group,
      bench.cycled v.unit.order v.cycle group) := Bench.stepIn_eq sound rfl held v.unit.order v.cycle
  simp only [asked, stepped, bench]
  cases drained : v.unit.isDrained with
  | true =>
      rw [share?, held, Option.bind_some, ComputeUnit.share_of_isDrained drained, Bench.cycled,
        if_pos drained]
      rfl
  | false =>
      have request := follows.executeCall_eq sound v.cycle group
      rw [Bench.cycled, if_neg (ne_true_of_eq_false drained),
        Bench.after_of_stateless SyntheticProgram.stateless]
      simp only [request]
      rcases taken : v.share? with _ | s
      · rw [show v.unit.share v.cycle group = none by simpa [share?, held] using taken]
        rfl
      · rw [show v.unit.share v.cycle group = some s by simpa [share?, held] using taken,
          pc_of_share? taken, Option.bind_some]
        rcases requested : s.request? v.isa v.unit.lanes.length with _ | request <;>
          simp [Share.asked, requested, Bench.memoryCall, MemoryService.access]

end Turns

/-- A visit of a unit that runs a program on so many lanes. -/
structure Regular (v : Visit SyntheticProgram μ) (p : SyntheticProgram)
    (lanes : Nat) : Prop where
  isa : v.isa = p
  sound : v.unit.Sound
  follows : v.unit.Follows p
  width : v.unit.lanes.length = lanes
  held : ∃ group, v.unit.group = some group

end Visit

/-! ## A run that notes its visits -/

/-- Notes of the visits so far, the latest one last. -/
abbrev Watched (ι μ π : Type) : Type := Noted (List (Visit ι μ)) ι μ π

namespace Watched

open Attempt Noted

/-- The visit that a unit is going to have. -/
def visit? (w : Watched ι μ π) (unit : Nat) : Option (Visit ι μ) :=
  w.job.device.cluster.units[unit]?.map fun u =>
    { unit := u, isa := w.job.device.cluster.isa, memory := w.job.device.cluster.memory
      cycle := w.job.device.cycle }

variable [InstructionModel ι] [MemoryService μ]

/-- Let a unit work, and note the visit. -/
def stepUnit (unit : Nat) : Attempt (Watched ι μ π) Unit := do
  modify fun w => { w with notes := w.notes ++ (visit? w unit).toList }
  onJob (Job.stepUnit unit)

theorem stepUnit_outcome (unit : Nat) (w : Watched ι μ π) :
    (stepUnit unit).outcome w = (((Job.stepUnit unit).outcome w.job).1,
      { job := ((Job.stepUnit unit).outcome w.job).2
        notes := w.notes ++ (visit? w unit).toList }) := rfl

/-- The next cycle of the device. -/
def advance : Attempt (Watched ι μ π) Unit := do
  onJob (Job.modifyDevice fun device => { device with cycle := device.cycle + 1 })
  (← get).job.device.busy.toList.forM stepUnit

/-- What all lanes have been given. -/
def issues (w : Watched ι μ π) : List Issue := w.notes.flatMap (·.issues)

/-- What memory has been asked for. -/
def asked (w : Watched ι μ π) : List Asked := w.notes.flatMap (·.asked)

theorem matches_advance :
    Matches Shows Eq (Job.advance : Attempt (Job ι μ π) Unit) Watched.advance := by
  have steps : ∀ unit, Matches Shows Eq (Job.stepUnit unit : Attempt (Job ι μ π) Unit)
      (Watched.stepUnit unit) := by
    rintro unit job w rfl
    exact ⟨agree_eq _, rfl⟩
  refine (matches_onJob _).andThen (matches_get fun job w shows => ?_)
  cases shows
  exact Matches.forM steps _

end Watched

end Accelerator
