import Accelerator.Proofs.Pipeline.Following
import Mathlib.Algebra.BigOperators.Intervals

/-!
# What a work-group costs

A *tariff* puts a price on everything that happens to an instruction: on being handed on by a
stage, and on each turn in the execute stage. What a unit owes is the price of all that is still
to happen before it is drained, and in every cycle it pays for what happens then (`owed_next`).
With suitable prices this counts the instructions that are still to be written back, or the
requests that are still to be made, or bounds the number of cycles in which anything happens at
all.
-/

namespace Accelerator

/-! ## Sums in which one place changes -/

/-- The weight of something that may be absent. -/
def weight {α : Type} (o : Option α) (f : α → Nat) : Nat := o.elim 0 f

theorem weight_eq_sum {α : Type} (o : Option α) (f : α → Nat) :
    weight o f = (o.toList.map f).sum := by
  cases o <;> simp [weight]

theorem weight_add {α : Type} (o : Option α) (f g : α → Nat) :
    (weight o fun a => f a + g a) = weight o f + weight o g := by
  cases o <;> rfl

theorem weight_map {α β : Type} (o : Option α) (g : α → β) (f : β → Nat) :
    weight (o.map g) f = weight o (f ∘ g) := by
  cases o <;> rfl

theorem sum_set {l : List Nat} {i n m : Nat} (here : l[i]? = some n) :
    (l.set i m).sum + n = l.sum + m := by
  induction l generalizing i with
  | nil => cases here
  | cons k rest ih =>
      cases i with
      | zero =>
          cases here
          simp only [List.set_cons_zero, List.sum_cons]
          omega
      | succ i =>
          have rest_eq := ih (i := i) here
          simp only [List.set_cons_succ, List.sum_cons]
          omega

/-- The sum over a row of which one place has changed. -/
theorem sum_map_of_change {α : Type} {f : α → Nat} {xs ys : List α} {i : Nat} {x y : α}
    (before : xs[i]? = some x) (after : ys[i]? = some y)
    (others : ∀ j, j ≠ i → ys[j]?.map f = xs[j]?.map f) :
    (ys.map f).sum + f x = (xs.map f).sum + f y := by
  have changed : ys.map f = (xs.map f).set i (f y) := by
    apply List.ext_getElem?
    intro j
    rw [List.getElem?_map, List.getElem?_set, List.length_map, List.getElem?_map]
    by_cases same : i = j
    · subst same
      rw [if_pos rfl, if_pos (List.getElem?_eq_some_iff.mp before).1, after, Option.map_some]
    · rw [if_neg same, others j (Ne.symm same)]
  rw [changed]
  exact sum_set (by rw [List.getElem?_map, before, Option.map_some])

/-! ## Prices -/

/-- What each stage takes for handing an instruction on, and what a turn costs. -/
structure Tariff where
  stage : Stage → Nat
  turn : InstKind → Nat

namespace Tariff

/-- Everything that happens costs something. -/
def work : Tariff where
  stage _ := 1
  turn _ := 1

/-- Writing an instruction back costs something. -/
def instructions : Tariff where
  stage stage := if stage = .write then 1 else 0
  turn _ := 0

/-- Making a request costs something. -/
def requests : Tariff where
  stage _ := 0
  turn kind := if kind.access?.isSome then 1 else 0

variable (t : Tariff) (p : SyntheticProgram)

def turnAt (pc : Nat) : Nat := t.turn (p.instruction pc).kind

/-- What is still to be paid for the instruction at `pc` once a stage has handed it on. -/
def rest (turns pc : Nat) : Stage → Nat
  | .write => 0
  | .execute => t.stage .write
  | .read => turns * t.turnAt p pc + t.stage .execute + t.stage .write
  | .decode => t.stage .read + (turns * t.turnAt p pc + t.stage .execute + t.stage .write)
  | .fetch => t.stage .decode +
      (t.stage .read + (turns * t.turnAt p pc + t.stage .execute + t.stage .write))
  | .schedule => t.stage .fetch + (t.stage .decode +
      (t.stage .read + (turns * t.turnAt p pc + t.stage .execute + t.stage .write)))

/-- The price of the instruction at `pc`. -/
def whole (turns pc : Nat) : Nat := t.stage .schedule + t.rest p turns pc .schedule

/-- What is still to be paid for what is in the execute stage. -/
def restOf (ex : Execution) : Nat :=
  (ex.turns - ex.turn) * t.turnAt p ex.slot.pc + t.stage .execute + t.stage .write

/-- The price of all instructions from `pc` on. -/
def span (turns pc : Nat) : Nat := ∑ k ∈ Finset.Ico pc p.length, t.whole p turns k

/-- The price of what a wavefront has yet to issue. -/
def future (turns : Nat) (r : Resident) : Nat :=
  if r.retired then 0 else t.span p turns (if r.inFlight then r.pc + 1 else r.pc)

variable {t p}

theorem span_eq {turns pc : Nat} (inside : pc < p.length) :
    t.span p turns pc = t.whole p turns pc + t.span p turns (pc + 1) :=
  Finset.sum_eq_sum_Ico_succ_bot inside _

theorem span_eq_zero {turns pc : Nat} (outside : p.length ≤ pc) : t.span p turns pc = 0 := by
  rw [span, Finset.Ico_eq_empty_of_le outside, Finset.sum_empty]

/-- A turn is paid for when it is taken. -/
theorem restOf_eq (ex : Execution) (ready : Option Nat) :
    t.restOf p ex = (if ex.hasTurn then t.turnAt p ex.slot.pc else 0) +
      t.restOf p (ex.advance ready) := by
  unfold restOf Execution.advance
  cases more : ex.hasTurn with
  | false => simp
  | true =>
      have left : ex.turns - ex.turn = ex.turns - (ex.turn + 1) + 1 := by
        have inside : ex.turn < ex.turns := of_decide_eq_true more
        omega
      simp only [if_true, left, Nat.add_mul, Nat.one_mul]
      omega

end Tariff

namespace ComputeUnit

variable {t : Tariff} {p : SyntheticProgram} {u : ComputeUnit} {cycle : Nat} {a : Answers}

/-! ## What a unit owes -/

/-- What is still to be paid for the slot that a stage has left behind. -/
def restAt (u : ComputeUnit) (t : Tariff) (p : SyntheticProgram) (stage : Stage) (slot : Slot) :
    Nat :=
  t.rest p (u.turnsAt slot.index) slot.pc stage

/-- What is still to be paid for what a wavefront has yet to issue. -/
def futureOf (u : ComputeUnit) (t : Tariff) (p : SyntheticProgram) (r : Resident) : Nat :=
  t.future p ((r.wavefront.subwavefrontCount? u.lanes.length).getD 0) r

/-- The price of all that is still to happen before the unit is drained. -/
def owed (u : ComputeUnit) (t : Tariff) (p : SyntheticProgram) : Nat :=
  (u.wavefronts.toList.map (u.futureOf t p)).sum +
    weight u.latches.schedule.current (u.restAt t p .schedule) +
    weight u.latches.fetch.current (u.restAt t p .fetch) +
    weight u.latches.decode.current (u.restAt t p .decode) +
    weight u.latches.read.current (u.restAt t p .read) +
    weight u.executing (t.restOf p) +
    weight u.latches.execute.current (u.restAt t p .execute)

/-- The price of what happens in the coming cycle. -/
def spent (u : ComputeUnit) (t : Tariff) (p : SyntheticProgram) (cycle : Nat) (a : Answers) : Nat :=
  weight (u.issued cycle) (fun _ => t.stage .schedule) +
    weight (u.taken .fetch) (fun _ => t.stage .fetch) +
    weight (u.taken .decode) (fun _ => t.stage .decode) +
    weight (u.taken .read) (fun _ => t.stage .read) +
    weight ((u.atWork cycle).filter (·.hasTurn)) (fun ex => t.turnAt p ex.slot.pc) +
    weight (u.given cycle a .execute) (fun _ => t.stage .execute) +
    weight (u.taken .write) fun _ => t.stage .write

/-! ## Paying -/

/-- A latch after a cycle holds what was in it, more what was given to it, less what was taken. -/
theorem weight_nextLatch (u : ComputeUnit) (cycle : Nat) (a : Answers) (stage : Stage)
    (filler : stage ≠ .write) (f : Slot → Nat) :
    weight (u.nextLatch cycle a stage).current f + weight (u.taken stage.reader) f =
      weight (u.given cycle a stage) f + weight (u.latches.get stage).current f := by
  simp only [weight_eq_sum, ← List.sum_append, ← List.map_append]
  rw [u.nextLatch_toList cycle a stage filler]

theorem weight_atWork (u : ComputeUnit) (t : Tariff) (p : SyntheticProgram) (cycle : Nat) :
    weight (u.atWork cycle) (t.restOf p) =
      weight (u.taken .execute) (u.restAt t p .read) + weight u.executing (t.restOf p) := by
  unfold atWork
  split
  next slot taken =>
      rw [executing_eq_none_of_taken taken, taken]
      simp [weight, Tariff.restOf, restAt, Tariff.rest, turnsAt, wavefront?]
  next taken => simp [weight, taken]

/-- The execute stage pays for the turn that is taken, and for the slot that it hands on. -/
theorem weight_executing (u : ComputeUnit) (t : Tariff) (p : SyntheticProgram) (cycle : Nat)
    (a : Answers) :
    weight (u.atWork cycle) (t.restOf p) =
      weight ((u.atWork cycle).filter (·.hasTurn)) (fun ex => t.turnAt p ex.slot.pc) +
        weight (u.next cycle a).executing (t.restOf p) +
        weight (u.given cycle a .execute) (fun _ => t.stage .execute) +
        weight (u.given cycle a .execute) (u.restAt t p .execute) := by
  have executing : (u.next cycle a).executing = (u.worked cycle a).filter (!·.isOver cycle) := rfl
  rw [executing, given]
  rcases working : u.atWork cycle with _ | ex
  · simp [worked, working, weight]
  · have paid := t.restOf_eq (p := p) ex a.ready
    have worked : u.worked cycle a = some (ex.advance a.ready) := by simp [worked, working]
    have turn : weight ((some ex).filter (·.hasTurn)) (fun ex => t.turnAt p ex.slot.pc) =
        if ex.hasTurn then t.turnAt p ex.slot.pc else 0 := by
      rw [Option.filter_some]
      split <;> rfl
    rw [worked, turn]
    cases leaves : (ex.advance a.ready).isOver cycle with
    | false => simpa [Option.filter, leaves, weight] using paid
    | true =>
        simp only [Execution.isOver, Bool.and_eq_true, Bool.not_eq_true'] at leaves
        have none_left : (ex.advance a.ready).turns - (ex.advance a.ready).turn = 0 := by
          have last : ¬ (ex.advance a.ready).turn < (ex.advance a.ready).turns :=
            of_decide_eq_false leaves.1
          omega
        have last : t.restOf p (ex.advance a.ready) = t.stage .execute + t.stage .write := by
          rw [Tariff.restOf, none_left, Nat.zero_mul, Nat.zero_add]
        simp [Option.filter, Execution.isOver, leaves, weight, restAt, Tariff.rest, paid, last,
          Nat.add_assoc]

/-! ## Wavefronts -/

/-- An instruction that is issued is accounted for in the pipeline from then on. -/
theorem Follows.future_issued (follows : u.Follows p) {new : Slot}
    (issued : u.issued cycle = some new) :
    ∃ r, u.wavefronts[new.index]? = some r ∧
      u.futureOf t p r = t.stage .schedule + u.restAt t p .schedule new +
        u.futureOf t p { r with inFlight := true } := by
  obtain ⟨index, r, issue, found, rfl⟩ := issued_eq_some_iff.mp issued
  obtain ⟨r', found', free, active⟩ := issuable_of_issue issue
  cases found.symm.trans found'
  have turns : u.turnsAt index = (r.wavefront.subwavefrontCount? u.lanes.length).getD 0 := by
    rw [turnsAt, found, Option.map_some, Option.bind_some]
  refine ⟨r, found, ?_⟩
  simp only [futureOf, Tariff.future, free, active, Bool.false_eq_true, if_false, if_true]
  rw [Tariff.span_eq (follows.bounded index r found active), Tariff.whole, restAt, turns]

variable {μ : Type} [MemoryService μ] {memory : μ}

/-- Writing an instruction back changes nothing about those that are yet to be issued. -/
theorem Follows.future_written (follows : u.Follows p) (sound : u.Sound) (kept : .end ∉ p.kinds)
    {gone : Slot} {r : Resident} (taken : u.taken .write = some gone)
    (found : u.wavefronts[gone.index]? = some r) :
    u.futureOf t p { r with
      inFlight := false
      pc := gone.pc + 1
      retired := r.retired || (u.asked p memory cycle).retired } = u.futureOf t p r := by
  obtain ⟨r', found', -, pc, inFlight, active⟩ := sound.carried gone (mem_slots_of_taken taken)
  cases found.symm.trans found'
  rw [retired_asked sound follows taken]
  simp only [futureOf, Tariff.future, active, inFlight, Bool.false_or, beq_iff_eq,
    p.kind_eq_end_iff kept, Bool.false_eq_true, if_false, if_true, pc]
  split
  next outside =>
      exact (Tariff.span_eq_zero (Nat.succ_le_succ outside)).symm
  next => rfl

/-- What the wavefronts have yet to issue becomes less by what is issued. -/
theorem Follows.sum_future (follows : u.Follows p) (sound : u.Sound) (kept : .end ∉ p.kinds) :
    ((u.next cycle (u.asked p memory cycle)).wavefronts.toList.map (u.futureOf t p)).sum +
        weight (u.issued cycle) (fun _ => t.stage .schedule) +
        weight (u.issued cycle) (u.restAt t p .schedule) =
      (u.wavefronts.toList.map (u.futureOf t p)).sum := by
  let next := u.next cycle (u.asked p memory cycle)
  -- Writing back is free here, so that only the wavefront that issues pays.
  have others : ∀ index, (∀ new, u.issued cycle = some new → new.index ≠ index) →
      next.wavefronts.toList[index]?.map (u.futureOf t p) =
        u.wavefronts.toList[index]?.map (u.futureOf t p) := by
    intro index unissued
    rw [Array.getElem?_toList, Array.getElem?_toList, getElem?_next]
    rcases found : u.wavefronts[index]? with _ | r
    · rfl
    by_cases isWritten : ∃ gone, u.taken .write = some gone ∧ gone.index = index
    · obtain ⟨gone, taken, rfl⟩ := isWritten
      rw [Option.map_some, nextResident_of_taken taken unissued, Option.map_some,
        follows.future_written sound kept taken found, Option.map_some]
    · have untaken : ∀ gone, u.taken .write = some gone → gone.index ≠ index :=
        fun gone taken same => isWritten ⟨gone, taken, same⟩
      rw [Option.map_some, nextResident_of_ne unissued untaken]
  rcases issued : u.issued cycle with _ | new
  · have same : next.wavefronts.toList.map (u.futureOf t p) =
        u.wavefronts.toList.map (u.futureOf t p) := by
      apply List.ext_getElem?
      intro index
      rw [List.getElem?_map, List.getElem?_map]
      apply others index
      intro new isNew
      cases issued.symm.trans isNew
    rw [same]
    rfl
  · obtain ⟨r, found, paid⟩ := follows.future_issued (t := t) issued
    have after : next.wavefronts.toList[new.index]? = some { r with inFlight := true } := by
      rw [Array.getElem?_toList, getElem?_next, found, Option.map_some,
        nextResident_of_issued issued]
    have before : u.wavefronts.toList[new.index]? = some r := by
      rw [Array.getElem?_toList, found]
    have sums := sum_map_of_change (f := u.futureOf t p) before after fun index differs =>
      others index fun other isNew => by
        cases issued.symm.trans isNew
        exact differs.symm
    show (next.wavefronts.toList.map (u.futureOf t p)).sum + t.stage .schedule +
      u.restAt t p .schedule new = _
    omega

/-! ## The account of a cycle -/

/-- In a cycle a unit pays for what happens in it. -/
theorem Follows.owed_next (follows : u.Follows p) (sound : u.Sound) (kept : .end ∉ p.kinds)
    (t : Tariff) :
    (u.next cycle (u.asked p memory cycle)).owed t p +
      u.spent t p cycle (u.asked p memory cycle) = u.owed t p := by
  let a := u.asked p memory cycle
  have lanes : (u.next cycle a).lanes.length = u.lanes.length := u.nextLanes_length cycle
  have future : (u.next cycle a).futureOf t p = u.futureOf t p := by
    funext r
    rw [futureOf, lanes, futureOf]
  have rest : (u.next cycle a).restAt t p = u.restAt t p := by
    funext stage slot
    rw [restAt, turnsAt_next, restAt]
  have toFetch : weight (u.taken .fetch) (u.restAt t p .schedule) =
      weight (u.taken .fetch) (fun _ => t.stage .fetch) +
        weight (u.given cycle a .fetch) (u.restAt t p .fetch) := by
    rw [given, weight_map]
    exact weight_add _ _ _
  have toDecode : weight (u.taken .decode) (u.restAt t p .fetch) =
      weight (u.taken .decode) (fun _ => t.stage .decode) +
        weight (u.given cycle a .decode) (u.restAt t p .decode) := by
    rw [given, weight_map]
    exact weight_add _ _ _
  have toRead : weight (u.taken .read) (u.restAt t p .decode) =
      weight (u.taken .read) (fun _ => t.stage .read) +
        weight (u.given cycle a .read) (u.restAt t p .read) := by
    rw [given, weight_map]
    exact weight_add _ _ _
  have written : weight (u.taken .write) (u.restAt t p .execute) =
      weight (u.taken .write) (fun _ => t.stage .write) := rfl
  have wavefronts : ((u.next cycle a).wavefronts.toList.map (u.futureOf t p)).sum +
      weight (u.given cycle a .schedule) (fun _ => t.stage .schedule) +
      weight (u.given cycle a .schedule) (u.restAt t p .schedule) =
        (u.wavefronts.toList.map (u.futureOf t p)).sum := follows.sum_future sound kept
  have schedule := u.weight_nextLatch cycle a .schedule (by decide) (u.restAt t p .schedule)
  have fetch := u.weight_nextLatch cycle a .fetch (by decide) (u.restAt t p .fetch)
  have decode := u.weight_nextLatch cycle a .decode (by decide) (u.restAt t p .decode)
  have read := u.weight_nextLatch cycle a .read (by decide) (u.restAt t p .read)
  have execute := u.weight_nextLatch cycle a .execute (by decide) (u.restAt t p .execute)
  have atWork := u.weight_atWork t p cycle
  have executing := u.weight_executing t p cycle a
  simp only [Stage.reader, Latches.get] at schedule fetch decode read execute
  have latches : (u.next cycle a).latches = {
      schedule := u.nextLatch cycle a .schedule
      fetch := u.nextLatch cycle a .fetch
      decode := u.nextLatch cycle a .decode
      read := u.nextLatch cycle a .read
      execute := u.nextLatch cycle a .execute } := rfl
  have issued : u.issued cycle = u.given cycle a .schedule := rfl
  show (u.next cycle a).owed t p + u.spent t p cycle a = u.owed t p
  simp only [owed, spent, future, rest, latches, issued]
  -- Each latch passes on to the next what was taken out of it, less the price of the stage between.
  omega

end ComputeUnit

end Accelerator
