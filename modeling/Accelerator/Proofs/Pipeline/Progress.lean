import Accelerator.Proofs.Pipeline.Tariff
import Mathlib.Algebra.BigOperators.Ring.Finset

/-!
# Progress of a unit

Three tariffs and what they count. The first two go by what is recorded of a unit: the
instructions that are written back and the requests that are made. By the third every movement has
a price, so that a unit which pays nothing in a cycle stands still; and a unit that stands still
without being drained waits for the memory.
-/

namespace Accelerator

/-! ## Counting -/

@[simp] theorem weight_zero {α : Type} (o : Option α) : (weight o fun _ => 0) = 0 := by
  cases o <;> rfl

theorem weight_one {α : Type} (o : Option α) :
    (weight o fun _ => 1) = if o.isSome then 1 else 0 := by
  cases o <;> rfl

namespace Tariff

variable {p : SyntheticProgram}

/-- A wavefront has all instructions of its program written back. -/
theorem span_instructions (turns : Nat) : instructions.span p turns 0 = p.length := by
  have whole : ∀ pc, instructions.whole p turns pc = 1 := fun pc => by
    simp [Tariff.whole, rest, turnAt, instructions]
  rw [span]
  simp only [whole]
  exact (Finset.card_eq_sum_ones _).symm.trans (Nat.card_Ico 0 p.length)

theorem sum_getD (l : List InstKind) (f : InstKind → Nat) :
    ∑ pc ∈ Finset.range l.length, f (l.getD pc .end) = (l.map f).sum := by
  induction l with
  | nil => rfl
  | cons kind rest ih =>
      rw [List.length_cons, Finset.sum_range_succ', List.map_cons, List.sum_cons, ← ih,
        Nat.add_comm]
      rfl

/-- A wavefront makes a request for each turn of its loads and stores. -/
theorem span_requests (turns : Nat) :
    requests.span p turns 0 = (p.kinds.count .load + p.kinds.count .store) * turns := by
  have whole : ∀ pc, requests.whole p turns pc =
      requests.turn (p.kinds.getD pc .end) * turns := fun pc => by
    simp [Tariff.whole, rest, turnAt, requests, SyntheticProgram.instruction]
  have counted : ∀ l : List InstKind,
      (l.map requests.turn).sum = l.count .load + l.count .store := by
    intro l
    induction l with
    | nil => rfl
    | cons kind rest ih =>
        rw [List.map_cons, List.sum_cons, ih]
        cases kind <;> simp [requests, InstKind.access?] <;> omega
  have last : requests.turn (p.kinds.getD p.kinds.length .end) = 0 := by
    rw [List.getD_eq_default _ _ (Nat.le_refl _)]
    rfl
  rw [span, ← Finset.range_eq_Ico]
  simp only [whole]
  rw [← Finset.sum_mul, SyntheticProgram.length, Finset.sum_range_succ, last, sum_getD, counted,
    Nat.add_zero]

end Tariff

namespace ComputeUnit

variable {p : SyntheticProgram} {u : ComputeUnit} {cycle : Nat} {a : Answers} {μ : Type}
  [MemoryService μ] {memory : μ}

theorem spent_instructions :
    u.spent .instructions p cycle a = if (u.taken .write).isSome then 1 else 0 := by
  simp [spent, Tariff.instructions, Tariff.turnAt, weight_one]

theorem Follows.spent_requests (follows : u.Follows p) (sound : u.Sound) :
    u.spent .requests p cycle (u.asked p memory cycle) =
      if (u.asked p memory cycle).ready.isSome then 1 else 0 := by
  have turns : u.spent .requests p cycle (u.asked p memory cycle) =
      weight ((u.atWork cycle).filter (·.hasTurn)) fun ex =>
        if p.accesses ex.slot.pc then 1 else 0 := by
    simp only [spent, Tariff.requests, weight_zero, Nat.zero_add, Nat.add_zero]
    rfl
  rw [turns, ready_asked sound follows]
  rcases u.atWork cycle with _ | ex
  · rfl
  · cases more : ex.hasTurn <;> simp [weight, Option.filter, more]

/-! ## Standing still -/

/-- The search for a wavefront misses none. -/
theorem isIssuableAt_of_issuableFrom_none {n start : Nat} (inside : start < u.wavefronts.size)
    (missed : u.issuableFrom n start = none) (k : Nat) (bound : k < n) :
    u.isIssuableAt ((start + k) % u.wavefronts.size) = false := by
  induction n generalizing start k with
  | zero => exact absurd bound (Nat.not_lt_zero k)
  | succ n ih =>
      rw [issuableFrom] at missed
      split at missed
      next => cases missed
      next here =>
          cases k with
          | zero =>
              rw [Nat.add_zero, Nat.mod_eq_of_lt inside]
              exact eq_false_of_ne_true here
          | succ k =>
              have positive : 0 < u.wavefronts.size := Nat.lt_of_le_of_lt (Nat.zero_le _) inside
              have later := ih (Nat.mod_lt _ positive) missed k (Nat.lt_of_succ_lt_succ bound)
              rwa [Nat.mod_add_mod, Nat.add_assoc, Nat.add_comm 1 k] at later

theorem isIssuableAt_of_nextIssuable_none (missed : u.nextIssuable = none) {index : Nat}
    (inside : index < u.wavefronts.size) : u.isIssuableAt index = false := by
  have positive : 0 < u.wavefronts.size := Nat.lt_of_le_of_lt (Nat.zero_le _) inside
  have start := Nat.mod_lt u.cursor positive
  have found := isIssuableAt_of_issuableFrom_none start missed
  rcases Nat.lt_or_ge index (u.cursor % u.wavefronts.size) with before | after
  · have here := found (index + u.wavefronts.size - u.cursor % u.wavefronts.size) (by omega)
    have around : u.cursor % u.wavefronts.size +
        (index + u.wavefronts.size - u.cursor % u.wavefronts.size) =
          index + u.wavefronts.size := by omega
    rwa [around, Nat.add_mod_right, Nat.mod_eq_of_lt inside] at here
  · have here := found (index - u.cursor % u.wavefronts.size) (by omega)
    rwa [Nat.add_sub_cancel' after, Nat.mod_eq_of_lt inside] at here

theorem weight_one_eq_zero {α : Type} {o : Option α} : (weight o fun _ => 1) = 0 ↔ o = none := by
  cases o <;> simp [weight]

/-- Every instruction takes at least one turn. -/
theorem Sound.turnsAt_pos (sound : u.Sound) {slot : Slot} (member : slot ∈ u.slots) :
    0 < u.turnsAt slot.index := by
  obtain ⟨r, found⟩ := sound.resident_of_mem member
  rw [turnsAt, found, Option.map_some, Option.bind_some, Wavefront.subwavefrontCount?,
    if_neg sound.width, Option.getD_some]
  exact Nat.lt_of_lt_of_le Nat.zero_lt_one (Nat.le_max_right _ _)

/-- Nothing is taken up for execution without having a turn in the same cycle. -/
theorem Sound.taken_execute_eq_none (sound : u.Sound)
    (turnless : (u.atWork cycle).filter (·.hasTurn) = none) : u.taken .execute = none := by
  rcases taken : u.taken .execute with _ | slot
  · rfl
  · have turns := sound.turnsAt_pos (mem_slots_of_taken taken)
    have working : u.atWork cycle =
        some { slot, turns := u.turnsAt slot.index, readyAt := cycle } := by
      rw [atWork, taken]
      rfl
    have more : ({ slot, turns := u.turnsAt slot.index, readyAt := cycle } : Execution).hasTurn =
        true := decide_eq_true turns
    rw [working, Option.filter_some, if_pos more] at turnless
    cases turnless

/-- Where nothing moves and nothing is executed there is nothing in the pipeline. -/
theorem slots_eq_nil_of_still (idle : u.executing = none) (fetch : u.taken .fetch = none)
    (decode : u.taken .decode = none) (read : u.taken .read = none)
    (execute : u.taken .execute = none) (write : u.taken .write = none) : u.slots = [] := by
  have executed : u.latches.execute.current = none := u.taken_write ▸ write
  have readOut : u.latches.read.current = none := by
    rcases held : u.latches.read.current with _ | slot
    · rfl
    · simp [taken, plan_execute, Latches.isOccupied, Latches.get, Latch.isOccupied, held,
        idle] at execute
  have decoded : u.latches.decode.current = none := by
    rcases held : u.latches.decode.current with _ | slot
    · rfl
    · simp [taken, plan_read, Latches.isOccupied, Latches.get, Latch.isOccupied, held,
        readOut] at read
  have fetched : u.latches.fetch.current = none := by
    rcases held : u.latches.fetch.current with _ | slot
    · rfl
    · simp [taken, plan_decode, Latches.isOccupied, Latches.get, Latch.isOccupied, held,
        decoded] at decode
  have scheduled : u.latches.schedule.current = none := by
    rcases held : u.latches.schedule.current with _ | slot
    · rfl
    · simp [taken, plan_fetch, Latches.isOccupied, Latches.get, Latch.isOccupied, held,
        fetched] at fetch
  simp [slots, idle, executed, readOut, decoded, fetched, scheduled]

/-- With an empty pipeline, nothing is issued only if everything has retired. -/
theorem Sound.isDrained_of_still (sound : u.Sound) (empty : u.slots = [])
    (unissued : u.issued cycle = none) : u.isDrained = true := by
  have free : u.latches.isOccupied .schedule = false := by
    simp only [slots, List.append_eq_nil_iff, Option.toList_eq_nil_iff] at empty
    simp [Latches.isOccupied, Latches.get, Latch.isOccupied, empty]
  have missed : u.nextIssuable = none := by
    rcases found : u.nextIssuable with _ | index
    · rfl
    · have issue : u.plan.issue = some index := by
        rw [plan_issue, free, Bool.not_false, Bool.true_or, if_pos rfl, found]
      obtain ⟨r, resident, -⟩ := issuable_of_issue issue
      rw [issued, issue, Option.bind_some, resident] at unissued
      cases unissued
  refine sound.isDrained_iff.mpr ⟨empty, Array.all_eq_true.mpr fun index inside => ?_⟩
  have found : u.wavefronts[index]? = some u.wavefronts[index] :=
    Array.getElem?_eq_getElem inside
  have stuck := isIssuableAt_of_nextIssuable_none missed inside
  have landed : u.wavefronts[index].inFlight = false := by
    apply eq_false_of_ne_true
    intro inFlight
    obtain ⟨slot, member, -⟩ := sound.flagged index _ found inFlight
    rw [empty] at member
    cases member
  simpa [isIssuableAt, found, Resident.isIssuable, landed] using stuck

/-- A unit that has work to do and in which nothing happens waits for the memory. -/
theorem Sound.waits (sound : u.Sound) (running : u.isDrained = false)
    (still : u.spent .work p cycle a = 0) :
    ∃ ex, u.executing = some ex ∧ (u.next cycle a).executing = some ex ∧ cycle < ex.readyAt := by
  simp only [spent, Tariff.work, Tariff.turnAt, Nat.add_eq_zero_iff, weight_one_eq_zero] at still
  obtain ⟨⟨⟨⟨⟨⟨unissued, fetch⟩, decode⟩, read⟩, turnless⟩, given⟩, write⟩ := still
  have execute := sound.taken_execute_eq_none turnless
  rcases idle : u.executing with _ | ex
  · have empty := slots_eq_nil_of_still idle fetch decode read execute write
    exact absurd (sound.isDrained_of_still empty unissued) (ne_true_of_eq_false running)
  · have working : u.atWork cycle = some ex := by rw [atWork, execute, idle]
    have exhausted : ex.hasTurn = false := by
      rw [working, Option.filter_some] at turnless
      exact eq_false_of_ne_true fun more => by simp [more] at turnless
    have worked : u.worked cycle a = some ex := by
      rw [ComputeUnit.worked, working, Option.map_some, Execution.advance, exhausted]
      rfl
    have waiting : ex.isOver cycle = false := by
      rw [ComputeUnit.given, worked, Option.filter_some] at given
      exact eq_false_of_ne_true fun done => by simp [done] at given
    refine ⟨ex, rfl, ?_, ?_⟩
    · show (u.worked cycle a).filter (!·.isOver cycle) = some ex
      rw [worked, Option.filter_some, waiting]
      rfl
    · simpa [Execution.isOver, exhausted] using waiting

end ComputeUnit

end Accelerator
