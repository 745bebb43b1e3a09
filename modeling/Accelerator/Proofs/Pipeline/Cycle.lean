import Accelerator.Program
import Accelerator.Proofs.Pipeline.Evaluation

/-!
# One cycle in closed form

A cycle of a sound unit is never refused, and what it leads to can be written down without
reference to the stages one by one: `Bench.after` puts it together from `ComputeUnit.next` and the
events of the stages. The order of evaluation decides in which order the events are listed and in
which order the instruction model is asked, and nothing else.
-/

namespace Accelerator

namespace Bench

variable {ι μ : Type} [InstructionModel ι] [MemoryService μ]

/-! ## From the first stage to the last -/

/-- The instruction model as a stage finds it, when stages are evaluated in the given order. -/
def isaBefore (u : ComputeUnit) (cycle : Nat) (isa : ι) : List Stage → Stage → ι
  | [], _ => isa
  | first :: rest, stage =>
    if first = stage then isa else isaBefore u cycle (isaAfter u cycle isa first) rest stage

/-- The first of some stages finds the model as it is, and the others as the first has left it. -/
theorem isaBefore_cons {u : ComputeUnit} {cycle : Nat} {isa : ι} {isaAt : Stage → ι}
    {done rest : List Stage} {stage : Stage} (distinct : (done ++ stage :: rest).Nodup)
    (found : ∀ later ∈ stage :: rest, isaAt later = isaBefore u cycle isa (stage :: rest) later) :
    stage ∉ done ∧ isaAt stage = isa ∧ ((done ++ [stage]) ++ rest).Nodup ∧
      ∀ later ∈ rest, isaAt later = isaBefore u cycle (isaAfter u cycle isa stage) rest later := by
  obtain ⟨-, others, apart⟩ := List.nodup_append.mp distinct
  refine ⟨fun member => apart stage member stage (List.mem_cons_self ..) rfl, ?_,
    List.append_cons .. ▸ distinct, fun later member => ?_⟩
  · rw [found stage (List.mem_cons_self ..), isaBefore, if_pos rfl]
  · have differs : stage ≠ later := by
      rintro rfl
      exact (List.nodup_cons.mp others).1 member
    rw [found later (List.mem_cons_of_mem _ member), isaBefore, if_neg differs]

/-- Evaluating stages one after the other leads halfway through the cycle, and further. -/
theorem foldlM_runStage {b : Bench ι μ} {turn : Turn} {isaAt : Stage → ι} {isa : ι}
    {done todo : List Stage} (sound : b.unit.Sound) (plan : turn.plan = b.unit.plan)
    (distinct : (done ++ todo).Nodup)
    (found : ∀ stage ∈ todo, isaAt stage = isaBefore b.unit turn.cycle isa todo stage) :
    todo.foldlM (runStage turn) (b.midway turn.cycle turn.group isaAt isa done) =
      .ok (b.midway turn.cycle turn.group isaAt (todo.foldl (isaAfter b.unit turn.cycle) isa)
        (done ++ todo)) := by
  induction todo generalizing done isa with
  | nil =>
      rw [List.append_nil]
      rfl
  | cons stage rest ih =>
      obtain ⟨fresh, here, distinct, there⟩ := isaBefore_cons distinct found
      rw [List.append_cons done, List.foldlM_cons, runStage_midway sound plan fresh here]
      exact ih distinct there

/-! ## The commit -/

end Bench

/-- Latches are committed one by one. -/
theorem Latches.commit_eq {α : Type} {l m : Latches α}
    (commits : ∀ stage ∈ Stage.handingOn, (l.get stage).commit? = some (m.get stage)) :
    l.commit = .ok m := by
  have schedule := commits .schedule (by decide)
  have fetch := commits .fetch (by decide)
  have decode := commits .decode (by decide)
  have read := commits .read (by decide)
  have execute := commits .execute (by decide)
  simp only [get] at schedule fetch decode read execute
  simp [commit, Stage.handingOn, List.foldlM, get, set, schedule, fetch, decode, read, execute,
    bind, Except.bind, pure, Except.pure]

namespace Bench

variable {u : ComputeUnit} {cycle : Nat} {a : Answers}

/-- At the end of a cycle every latch has room for what is staged. -/
theorem commit?_midLatch {stages : List Stage} (stage : Stage) (filled : stage ∈ stages)
    (emptied : stage.reader ∈ stages) :
    (midLatch u cycle a stages stage stage.reader).commit? = some (u.nextLatch cycle a stage) := by
  rcases given : u.given cycle a stage with _ | slot
  · simp [midLatch, filled, emptied, given, Latch.commit?, ComputeUnit.nextLatch]
  · have room := ComputeUnit.room_of_given (u := u) (by rw [given]; rfl)
    rcases taken : u.taken stage.reader with _ | other
    · have free : (u.latches.get stage).current = none := by simpa [taken] using room
      simp [midLatch, filled, emptied, given, Latch.commit?, ComputeUnit.nextLatch, taken, free]
    · simp [midLatch, filled, emptied, given, Latch.commit?, ComputeUnit.nextLatch, taken]

theorem commit_midway_latches {ι μ : Type} [InstructionModel ι] [MemoryService μ] {b : Bench ι μ}
    {group : Nat} {isaAt : Stage → ι} {isa : ι} {stages : List Stage}
    (complete : ∀ stage, stage ∈ stages) :
    (b.midway cycle group isaAt isa stages).unit.latches.commit =
      .ok (b.unit.next cycle (answers b.unit b.memory cycle isaAt)).latches := by
  apply Latches.commit_eq
  intro stage handing
  cases stage with
  | schedule => exact commit?_midLatch .schedule (complete _) (complete _)
  | fetch => exact commit?_midLatch .fetch (complete _) (complete _)
  | decode => exact commit?_midLatch .decode (complete _) (complete _)
  | read => exact commit?_midLatch .read (complete _) (complete _)
  | execute => exact commit?_midLatch .execute (complete _) (complete _)
  | write => exact absurd handing (by decide)

/-- Updates of wavefronts that exist are carried out one after the other. -/
theorem foldlM_applyUpdate {updates : List WavefrontUpdate} {wavefronts : Array Resident}
    (bound : ∀ update ∈ updates, update.index < wavefronts.size) :
    updates.foldlM applyUpdate wavefronts =
      .ok (updates.foldl (fun w update => w.modify update.index update.apply) wavefronts) := by
  induction updates generalizing wavefronts with
  | nil => rfl
  | cons update rest ih =>
      have here : applyUpdate wavefronts update =
          .ok (wavefronts.modify update.index update.apply) := by
        rw [applyUpdate, if_pos (bound update (List.mem_cons_self ..))]
        rfl
      rw [List.foldlM_cons, here]
      apply ih
      intro later member
      rw [Array.size_modify]
      exact bound later (List.mem_cons_of_mem _ member)

theorem index_lt_of_mem_stageUpdates (sound : u.Sound) {stage : Stage} {update : WavefrontUpdate}
    (noted : update ∈ u.stageUpdates cycle a stage) : update.index < u.wavefronts.size := by
  cases stage with
  | schedule =>
      simp only [ComputeUnit.stageUpdates, List.mem_map, Option.mem_toList] at noted
      obtain ⟨slot, issued, rfl⟩ := noted
      obtain ⟨index, r, -, found, rfl⟩ := ComputeUnit.issued_eq_some_iff.mp issued
      exact (Array.getElem?_eq_some_iff.mp found).1
  | write =>
      simp only [ComputeUnit.stageUpdates, List.mem_map, Option.mem_toList] at noted
      obtain ⟨slot, taken, rfl⟩ := noted
      exact (sound.carried slot (ComputeUnit.mem_slots_of_taken taken)).lt_size
  | _ => cases noted

/-- What is carried out at the end of a cycle concerns at most two wavefronts, one that issues and
another one of which something is written back. So it does not matter which comes first. -/
theorem foldl_stageUpdates (sound : u.Sound) (order : StageOrder) :
    (order.stages.flatMap (u.stageUpdates cycle a)).foldl
        (fun w update => w.modify update.index update.apply) u.wavefronts =
      u.wavefronts.mapIdx (u.nextResident cycle a) := by
  rcases issued : u.issued cycle with _ | slot <;> rcases taken : u.taken .write with _ | other
  · cases order <;>
      simp [StageOrder.stages, Stage.all, ComputeUnit.stageUpdates, issued, taken] <;>
      apply Array.ext <;> simp [ComputeUnit.nextResident, issued, taken]
  · cases order <;>
      simp [StageOrder.stages, Stage.all, ComputeUnit.stageUpdates, issued, taken] <;>
      apply Array.ext <;>
      simp [ComputeUnit.nextResident, issued, taken, Array.getElem_modify, WavefrontUpdate.index,
        WavefrontUpdate.apply, Option.filter] <;>
      intro i _ <;> by_cases written : other.index = i <;> simp [written]
  · cases order <;>
      simp [StageOrder.stages, Stage.all, ComputeUnit.stageUpdates, issued, taken] <;>
      apply Array.ext <;>
      simp [ComputeUnit.nextResident, issued, taken, Array.getElem_modify, WavefrontUpdate.index,
        WavefrontUpdate.apply]
  · have differs := sound.issued_ne issued (ComputeUnit.mem_slots_of_taken taken)
    cases order <;>
      simp [StageOrder.stages, Stage.all, ComputeUnit.stageUpdates, issued, taken] <;>
      apply Array.ext <;>
      simp [ComputeUnit.nextResident, issued, taken, Array.getElem_modify, WavefrontUpdate.index,
        WavefrontUpdate.apply, Option.filter] <;>
      intro i _ <;> by_cases written : other.index = i <;> try simp [written]
    all_goals simp [written ▸ differs]

end Bench

/-! ## The whole cycle -/

/-- Every stage is evaluated once in a cycle. -/
theorem StageOrder.nodup_stages (order : StageOrder) : order.stages.Nodup := by
  cases order <;> decide

theorem StageOrder.mem_stages (order : StageOrder) (stage : Stage) : stage ∈ order.stages := by
  cases order <;> cases stage <;> decide

namespace Bench

variable {ι μ : Type} [InstructionModel ι] [MemoryService μ]

/-- The answers of a cycle whose stages are evaluated in a given order. -/
def answersIn (order : StageOrder) (cycle : Nat) (b : Bench ι μ) : Answers :=
  answers b.unit b.memory cycle (isaBefore b.unit cycle b.isa order.stages)

/-- What a cycle leads to. -/
def after (order : StageOrder) (cycle group : Nat) (b : Bench ι μ) : Bench ι μ where
  unit := b.unit.next cycle (b.answersIn order cycle)
  isa := order.stages.foldl (isaAfter b.unit cycle) b.isa
  memory := (memoryCall b.memory cycle (executeCall b.unit cycle
    (isaBefore b.unit cycle b.isa order.stages .execute)).1).2
  events := b.events ++
    order.stages.flatMap (b.unit.stageEvents cycle group (b.answersIn order cycle))

/-- A cycle of a sound unit is not refused, and leads where it should. -/
theorem advance_eq {b : Bench ι μ} (sound : b.unit.Sound) (clear : b.updates = [])
    (order : StageOrder) (cycle group : Nat) :
    b.advance order cycle group = .ok (b.after order cycle group) := by
  let isaAt := isaBefore b.unit cycle b.isa order.stages
  let ended := b.midway cycle group isaAt (order.stages.foldl (isaAfter b.unit cycle) b.isa)
    order.stages
  have evaluated : order.stages.foldlM
      (runStage { cycle, group, plan := b.unit.plan }) b = .ok ended := by
    have run : order.stages.foldlM (runStage { cycle, group, plan := b.unit.plan })
        (b.midway cycle group isaAt b.isa []) = .ok ended :=
      foldlM_runStage sound rfl order.nodup_stages fun stage _ => rfl
    rwa [midway_nil sound.settled] at run
  have latches : ended.unit.latches.commit =
      .ok (b.unit.next cycle (answers b.unit b.memory cycle isaAt)).latches :=
    commit_midway_latches order.mem_stages
  have updates : ended.updates =
      order.stages.flatMap (b.unit.stageUpdates cycle (answers b.unit b.memory cycle isaAt)) := by
    simp [ended, midway, clear]
  have wavefronts : ended.updates.foldlM applyUpdate ended.unit.wavefronts =
      .ok (b.unit.wavefronts.mapIdx
        (b.unit.nextResident cycle (answers b.unit b.memory cycle isaAt))) := by
    have bound : ∀ update ∈ order.stages.flatMap
        (b.unit.stageUpdates cycle (answers b.unit b.memory cycle isaAt)),
        update.index < b.unit.wavefronts.size := by
      intro update noted
      obtain ⟨_, _, here⟩ := List.mem_flatMap.mp noted
      exact index_lt_of_mem_stageUpdates sound here
    rw [updates, ← foldl_stageUpdates sound order]
    exact foldlM_applyUpdate bound
  have committed : ended.commit = .ok { ended with
      unit := { ended.unit with
        latches := (b.unit.next cycle (answers b.unit b.memory cycle isaAt)).latches
        wavefronts := b.unit.wavefronts.mapIdx
          (b.unit.nextResident cycle (answers b.unit b.memory cycle isaAt)) }
      updates := [] } := by
    rw [commit, latches]
    simp only [wavefronts]
    rfl
  rw [advance, evaluated]
  simp only [bind, Except.bind, committed]
  simp [ended, midway, countCycle, after, answersIn, ComputeUnit.next, StageOrder.mem_stages, isaAt,
    pure, Except.pure]
  rfl

/-- What a cycle leads to, for a unit that may have finished its work-group before. Such a unit does
not advance. -/
def cycled (order : StageOrder) (cycle group : Nat) (b : Bench ι μ) : Bench ι μ :=
  if b.unit.isDrained then b else b.after order cycle group

theorem stepIn_eq {b : Bench ι μ} (sound : b.unit.Sound) (clear : b.updates = []) {group : Nat}
    (held : b.unit.group = some group) (order : StageOrder) (cycle : Nat) :
    b.stepIn order cycle =
      .ok ((b.cycled order cycle group).progress group, b.cycled order cycle group) := by
  unfold stepIn cycled
  cases drained : b.unit.isDrained with
  | true =>
      simp only [held, if_true, progress, drained]
      rfl
  | false =>
      simp only [held, Bool.false_eq_true, if_false, advance_eq sound clear order cycle group]
      rfl

end Bench

/-! ## Models without a state -/

/-- An instruction model that no call changes. -/
structure InstructionModel.Stateless (ι : Type) [InstructionModel ι] : Prop where
  fetch : ∀ (model : ι) (w : Wavefront) (pc : Nat), (InstructionModel.fetch model w pc).2 = model
  decode : ∀ (model : ι) (inst : Instruction), (InstructionModel.decode model inst).2 = model
  execute : ∀ (model : ι) (w : Wavefront) (inst : Instruction) (items : Span),
    (InstructionModel.execute model w inst items).2 = model
  write : ∀ (model : ι) (w : Wavefront) (inst : Instruction),
    (InstructionModel.write model w inst).2 = model

theorem SyntheticProgram.stateless : InstructionModel.Stateless SyntheticProgram where
  fetch _ _ _ := rfl
  decode _ _ := rfl
  execute _ _ _ _ := rfl
  write _ _ _ := rfl

namespace Bench

variable {ι μ : Type} [InstructionModel ι] [MemoryService μ]

theorem isaAfter_of_stateless (stateless : InstructionModel.Stateless ι) (u : ComputeUnit)
    (cycle : Nat) (isa : ι) (stage : Stage) : isaAfter u cycle isa stage = isa := by
  cases stage with
  | fetch =>
      simp only [isaAfter, fetchCall]
      split
      · rfl
      · split
        · rfl
        · exact stateless.fetch ..
  | decode =>
      simp only [isaAfter, decodeCall]
      split
      · rfl
      · exact stateless.decode ..
  | execute =>
      simp only [isaAfter, executeCall]
      split
      · rfl
      · split
        · split
          · exact stateless.execute ..
          · rfl
        · rfl
  | write =>
      simp only [isaAfter, writeCall]
      split
      · rfl
      · split
        · exact stateless.write ..
        · rfl
  | _ => rfl

theorem foldl_isaAfter_of_stateless (stateless : InstructionModel.Stateless ι) (u : ComputeUnit)
    (cycle : Nat) (isa : ι) (stages : List Stage) :
    stages.foldl (isaAfter u cycle) isa = isa := by
  induction stages with
  | nil => rfl
  | cons stage rest ih => rw [List.foldl_cons, isaAfter_of_stateless stateless, ih]

theorem isaBefore_of_stateless (stateless : InstructionModel.Stateless ι) (u : ComputeUnit)
    (cycle : Nat) (isa : ι) (stages : List Stage) :
    isaBefore u cycle isa stages = fun _ => isa := by
  funext stage
  induction stages with
  | nil => rfl
  | cons first rest ih => simp [isaBefore, isaAfter_of_stateless stateless, ih]

/-- Stages that ask a model without a state get the same answers in any order. -/
theorem after_of_stateless (stateless : InstructionModel.Stateless ι) (order : StageOrder)
    (cycle group : Nat) (b : Bench ι μ) :
    b.after order cycle group =
      let a := answers b.unit b.memory cycle fun _ => b.isa
      { unit := b.unit.next cycle a
        isa := b.isa
        memory := (memoryCall b.memory cycle (executeCall b.unit cycle b.isa).1).2
        events := b.events ++ order.stages.flatMap (b.unit.stageEvents cycle group a) } := by
  simp only [after, answersIn, isaBefore_of_stateless stateless,
    foldl_isaAfter_of_stateless stateless]

end Bench

end Accelerator
