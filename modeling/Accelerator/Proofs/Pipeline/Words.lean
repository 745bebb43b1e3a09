import Accelerator.Proofs.Pipeline.Turns

/-!
# Cycles in words

The execute stage is the only one that takes sums. In words a cycle of a unit is therefore what it is
with sums of any size, if words hold the sums of the turn that is taken in it (`Bench.holdsCycle`), and
otherwise it is a fault. There is no third possibility (`Bench.stepIn_words`).
-/

namespace Accelerator

namespace Bench

variable {ι μ : Type} [InstructionModel ι] [MemoryService μ]

/-! ## A turn -/

/-- Words hold the sums of a turn: where it begins and ends, the numbers of its items, and those that
the instruction and memory need. -/
def holdsTurn (b : Bench ι μ) (cycle : Nat) (ex : Execution) (w : Wavefront) : Bool :=
  let items := w.subwavefront ex.turn b.unit.lanes.length
  (@Wavefront.subwavefront? .words w ex.turn b.unit.lanes.length).isSome && w.holdsIds items &&
    ex.slot.instruction.all fun inst =>
      InstructionModel.holdsExecute b.isa w inst items &&
        (InstructionModel.execute b.isa w inst items).1.all fun request =>
          MemoryService.holdsAccess b.memory request cycle

theorem executeTurn_words {b : Bench ι μ} {turn : Turn} {ex : Execution} {w : Wavefront}
    (found : b.wavefrontOf ex.slot = .ok w) :
    (letI _ := Sums.words; b.executeTurn turn ex) =
      if b.holdsTurn turn.cycle ex w then b.executeTurn turn ex
      else .error (.fault .sumOverflow) := by
  let items := w.subwavefront ex.turn b.unit.lanes.length
  simp only [executeTurn, found, bind, Except.bind]
  rcases bounds : @Wavefront.subwavefront? .words w ex.turn b.unit.lanes.length with _ | here
  · simp [holdsTurn, bounds]
  · obtain rfl : here = items := by
      rw [Wavefront.subwavefront?_words, Option.ite_none_right_eq_some] at bounds
      exact (Option.some.inj bounds.2).symm
    cases ids : w.holdsIds items with
    | false => simp [holdsTurn, bounds, items, ids, pure, Except.pure]
    | true =>
        rcases carries : ex.slot.instruction with _ | inst
        · simp [holdsTurn, bounds, items, ids, carries, pure, Except.pure]
        · cases asks : InstructionModel.holdsExecute b.isa w inst items with
          | false => simp [holdsTurn, bounds, items, ids, carries, asks, pure, Except.pure]
          | true =>
              rcases made : InstructionModel.execute b.isa w inst items with ⟨_ | request, isa⟩
              · simp [holdsTurn, bounds, items, ids, carries, asks, made, pure, Except.pure]
              · cases answers : MemoryService.holdsAccess b.memory request turn.cycle <;>
                  simp [holdsTurn, bounds, items, ids, carries, asks, made, answers, pure,
                    Except.pure]

/-! ## The stages of a cycle -/

/-- Words hold the sums that the execute stage takes when it finds the instruction model like this. -/
def holdsCycle (b : Bench ι μ) (cycle : Nat) (isa : ι) : Bool :=
  (b.unit.atWork cycle).all fun ex => !ex.hasTurn ||
    (b.unit.wavefront? ex.slot).all fun w => ({ b with isa } : Bench ι μ).holdsTurn cycle ex w

/-- Only the execute stage takes sums. -/
theorem runStage_words_of_ne (turn : Turn) (b : Bench ι μ) {stage : Stage}
    (other : stage ≠ .execute) :
    (letI _ := Sums.words; runStage turn b stage) = runStage turn b stage := by
  cases stage with
  | execute => exact absurd rfl other
  | _ => rfl

section Stages

variable {b : Bench ι μ} {turn : Turn} {isaAt : Stage → ι} {isa : ι} {done todo : List Stage}

theorem runStage_execute_words (sound : b.unit.Sound) (plan : turn.plan = b.unit.plan)
    (fresh : .execute ∉ done) :
    (letI _ := Sums.words;
      runStage turn (b.midway turn.cycle turn.group isaAt isa done) .execute) =
        if b.holdsCycle turn.cycle isa then
          runStage turn (b.midway turn.cycle turn.group isaAt isa done) .execute
        else .error (.fault .sumOverflow) := by
  let begun := b.begun (b.midway turn.cycle turn.group isaAt isa done) turn
  have begins : beginExecution turn (b.midway turn.cycle turn.group isaAt isa done) = .ok begun :=
    beginExecution_midway sound plan fresh
  have executing : begun.unit.executing = b.unit.atWork turn.cycle := executing_begun fresh
  obtain ⟨wavefronts, lanes, model, memory⟩ : begun.unit.wavefronts = b.unit.wavefronts ∧
      begun.unit.lanes = b.unit.lanes ∧ begun.isa = isa ∧ begun.memory = b.memory :=
    begun_fields fresh
  simp only [runStage, executeStage, begins, bind, Except.bind, executing, holdsCycle]
  rcases working : b.unit.atWork turn.cycle with _ | ex
  · rfl
  · obtain ⟨r, resident⟩ := sound.resident_of_mem (ComputeUnit.mem_slots_of_atWork working)
    have found : begun.wavefrontOf ex.slot = .ok r.wavefront := by
      rw [wavefrontOf, wavefronts, resident]
      rfl
    have same : begun.holdsTurn turn.cycle ex r.wavefront =
        ({ b with isa } : Bench ι μ).holdsTurn turn.cycle ex r.wavefront := by
      simp only [holdsTurn, lanes, model, memory]
    have wavefront : b.unit.wavefront? ex.slot = some r.wavefront := by
      rw [ComputeUnit.wavefront?, resident, Option.map_some]
    by_cases more : ex.turn < ex.turns
    · simp only [if_pos more, executeTurn_words found, same, Option.all_some, wavefront,
        Execution.hasTurn, decide_eq_true more, Bool.not_true, Bool.false_or]
      cases ({ b with isa } : Bench ι μ).holdsTurn turn.cycle ex r.wavefront <;> rfl
    · simp [more, Execution.hasTurn]

/-- Evaluating stages one after the other leads as far as it does with sums of any size, unless the
execute stage is among them and takes sums that words do not hold. -/
theorem foldlM_runStage_words (sound : b.unit.Sound) (plan : turn.plan = b.unit.plan)
    (distinct : (done ++ todo).Nodup)
    (found : ∀ stage ∈ todo, isaAt stage = isaBefore b.unit turn.cycle isa todo stage) :
    (letI _ := Sums.words;
      todo.foldlM (runStage turn) (b.midway turn.cycle turn.group isaAt isa done)) =
        if .execute ∈ todo → b.holdsCycle turn.cycle (isaAt .execute) = true then
          todo.foldlM (runStage turn) (b.midway turn.cycle turn.group isaAt isa done)
        else .error (.fault .sumOverflow) := by
  induction todo generalizing done isa with
  | nil => simp
  | cons stage rest ih =>
      obtain ⟨fresh, here, distinct, there⟩ := isaBefore_cons distinct found
      rw [List.foldlM_cons, List.foldlM_cons, runStage_midway sound plan fresh here]
      by_cases executes : stage = .execute
      · subst executes
        have gone : .execute ∉ rest := by
          simp only [List.nodup_append, List.mem_append, List.mem_singleton] at distinct
          exact fun member => distinct.2.2 _ (.inr rfl) _ member rfl
        rw [runStage_execute_words sound plan fresh, here, runStage_midway sound plan fresh here]
        have rest_eq := ih distinct there
        rw [if_pos fun member => absurd member gone] at rest_eq
        cases holds : b.holdsCycle turn.cycle isa with
        | false => simp [bind, Except.bind]
        | true => simpa [bind, Except.bind] using rest_eq
      · rw [runStage_words_of_ne _ _ executes, runStage_midway sound plan fresh here]
        simpa [bind, Except.bind, Ne.symm executes] using ih distinct there

end Stages

/-! ## The cycle -/

theorem stepIn_words {b : Bench ι μ} (sound : b.unit.Sound) {group : Nat}
    (held : b.unit.group = some group) (order : StageOrder) (cycle : Nat) :
    (letI _ := Sums.words; b.stepIn order cycle) =
      if b.holdsCycle cycle (isaBefore b.unit cycle b.isa order.stages .execute) then
        b.stepIn order cycle
      else .error (.fault .sumOverflow) := by
  cases drained : b.unit.isDrained with
  | true =>
      have nothing : b.unit.atWork cycle = none := by
        refine Option.eq_none_iff_forall_ne_some.mpr fun ex working => ?_
        have member := ComputeUnit.mem_slots_of_atWork working
        rw [ComputeUnit.slots_eq_nil_of_isDrained drained] at member
        cases member
      simp [stepIn, held, drained, holdsCycle, nothing]
  | false =>
      let turn : Turn := { cycle, group, plan := b.unit.plan }
      let isaAt := isaBefore b.unit cycle b.isa order.stages
      have stages : (letI _ := Sums.words;
          order.stages.foldlM (runStage turn) (b.midway cycle group isaAt b.isa [])) =
          if .execute ∈ order.stages → b.holdsCycle cycle (isaAt .execute) = true then
            order.stages.foldlM (runStage turn) (b.midway cycle group isaAt b.isa [])
          else .error (.fault .sumOverflow) :=
        foldlM_runStage_words sound rfl order.nodup_stages fun stage _ => rfl
      rw [midway_nil sound.settled] at stages
      simp only [order.mem_stages, forall_const, turn, isaAt] at stages
      simp only [stepIn, held, drained, advance, stages]
      cases b.holdsCycle cycle (isaBefore b.unit cycle b.isa order.stages .execute) <;> rfl

end Bench

end Accelerator
