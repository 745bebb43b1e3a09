import Accelerator.Proofs.Pipeline.Cycle
import Accelerator.Proofs.Pipeline.Soundness
import Mathlib.Data.List.GetD
import Mathlib.Data.List.TakeWhile

/-!
# Units that follow a program

A unit *follows* a straight-line program when every slot beyond the fetch stage carries the kind
of instruction that stands at its position of the program, and no wavefront that still runs has
left the program. A cycle in which the program is asked keeps this so, and it settles what the
program and the memory are asked: the answer to the write stage is that the wavefront retires
exactly at the end of the program, and memory is asked once for each turn of a load or a store.
-/

namespace Accelerator

/-! ## Programs -/

namespace SyntheticProgram

variable {p : SyntheticProgram}

/-- An instruction that makes a request for each sub-wavefront. -/
def accesses (p : SyntheticProgram) (pc : Nat) : Bool := (p.instruction pc).kind.access?.isSome

/-- A program that was cut off at its first end has an end in no other place. -/
theorem end_notMem_ofKinds (kinds : List InstKind) (baseAddr : Nat) :
    .end ∉ (ofKinds kinds baseAddr).kinds := by
  intro member
  have differs := List.mem_takeWhile_imp member
  cases differs

theorem kind_eq_end_iff (kept : .end ∉ p.kinds) (pc : Nat) :
    (p.instruction pc).kind = .end ↔ p.kinds.length ≤ pc := by
  by_cases inside : pc < p.kinds.length
  · have here : (p.instruction pc).kind = p.kinds[pc] := List.getD_eq_getElem _ _ inside
    refine ⟨fun isEnd => ?_, fun outside => absurd inside (Nat.not_lt.mpr outside)⟩
    exact absurd (here.symm.trans isEnd ▸ List.getElem_mem inside) kept
  · have outside := Nat.le_of_not_lt inside
    exact ⟨fun _ => outside, fun _ => List.getD_eq_default _ _ outside⟩

end SyntheticProgram

/-! ## Sub-wavefronts -/

/-- Even a wavefront without items has a turn. -/
theorem Wavefront.subwavefrontCount?_pos {w : Wavefront} {lanes turns : Nat}
    (counted : w.subwavefrontCount? lanes = some turns) : 0 < turns := by
  simp only [subwavefrontCount?, Option.ite_none_left_eq_some, Option.some.injEq] at counted
  obtain ⟨-, rfl⟩ := counted
  exact Nat.lt_of_lt_of_le Nat.zero_lt_one (Nat.le_max_right ..)

/-- A wavefront with items has items for each of its turns. -/
theorem Wavefront.subwavefront_nonempty {w : Wavefront} {lanes turn turns : Nat}
    (items : w.items.start < w.items.stop) (positive : 0 < lanes)
    (counted : w.subwavefrontCount? lanes = some turns) (bound : turn < turns) :
    (w.subwavefront turn lanes).isEmpty = false := by
  have width : laneWord (max lanes 1) = laneWord lanes := by rw [Nat.max_eq_left positive]
  simp only [subwavefrontCount?, width, Option.ite_none_left_eq_some, Option.some.injEq] at counted
  obtain ⟨nonzero, rfl⟩ := counted
  have divisor : 0 < laneWord lanes := Nat.pos_of_ne_zero nonzero
  have before : turn * laneWord lanes < w.items.length := by
    rcases Nat.lt_or_ge turn (ceilDiv w.items.length (laneWord lanes)) with inside | outside
    · have below : (turn + 1) * laneWord lanes ≤ w.items.length + laneWord lanes - 1 :=
        (Nat.le_div_iff_mul_le divisor).mp inside
      rw [Nat.add_mul, Nat.one_mul] at below
      omega
    · have first : turn = 0 := by omega
      simp only [first, Nat.zero_mul, Span.length]
      omega
  refine decide_eq_false (Nat.not_le.mpr ?_)
  simp only [subwavefront, Span.length] at before ⊢
  omega

/-! ## What it means to follow -/

/-- The slot carries an instruction of the kind that stands at its position. -/
def Slot.Follows (slot : Slot) (p : SyntheticProgram) : Prop :=
  slot.instruction.map (·.kind) = some (p.instruction slot.pc).kind

namespace ComputeUnit

/-- How many turns an instruction of the wavefront at a position takes. -/
def turnsAt (u : ComputeUnit) (index : Nat) : Nat :=
  ((u.wavefronts[index]?.map (·.wavefront)).bind fun w =>
    w.subwavefrontCount? u.lanes.length).getD 0

theorem turnsAt_of_found {u : ComputeUnit} {index : Nat} {r : Resident}
    (found : u.wavefronts[index]? = some r) :
    u.turnsAt index = (r.wavefront.subwavefrontCount? u.lanes.length).getD 0 := by
  rw [turnsAt, found]
  rfl

/-- The unit runs the program, and nothing else. -/
structure Follows (u : ComputeUnit) (p : SyntheticProgram) : Prop where
  lanes : 0 < u.lanes.length
  items : ∀ (index : Nat) (r : Resident), u.wavefronts[index]? = some r →
    r.wavefront.items.start < r.wavefront.items.stop
  bounded : ∀ (index : Nat) (r : Resident), u.wavefronts[index]? = some r → r.retired = false →
    r.pc < p.length
  fetched : ∀ stage, stage ≠ .schedule → ∀ slot, (u.latches.get stage).current = some slot →
    slot.Follows p
  executing : ∀ ex, u.executing = some ex →
    ex.slot.Follows p ∧ ex.turns = u.turnsAt ex.slot.index

variable {u : ComputeUnit} {p : SyntheticProgram} {μ : Type} [MemoryService μ] {memory : μ}
  {cycle : Nat} {a : Answers}

theorem current_of_taken {stage : Stage} {slot : Slot} (taken : u.taken stage = some slot) :
    (stage = .fetch ∧ u.latches.schedule.current = some slot) ∨
      ∃ source, source ≠ .schedule ∧ (u.latches.get source).current = some slot := by
  cases stage with
  | schedule => cases taken
  | fetch => exact Or.inl ⟨rfl, (Option.ite_none_right_eq_some.mp taken).2⟩
  | decode => exact Or.inr ⟨.fetch, by decide, (Option.ite_none_right_eq_some.mp taken).2⟩
  | read => exact Or.inr ⟨.decode, by decide, (Option.ite_none_right_eq_some.mp taken).2⟩
  | execute => exact Or.inr ⟨.read, by decide, (Option.ite_none_right_eq_some.mp taken).2⟩
  | write => exact Or.inr ⟨.execute, by decide, (Option.ite_none_right_eq_some.mp taken).2⟩

theorem Follows.of_taken (follows : u.Follows p) {stage : Stage} {slot : Slot}
    (later : stage ≠ .fetch) (taken : u.taken stage = some slot) : slot.Follows p := by
  rcases current_of_taken taken with ⟨isFetch, -⟩ | ⟨source, differs, current⟩
  · exact absurd isFetch later
  · exact follows.fetched source differs slot current

/-- What is at work in the execute stage takes as many turns as its wavefront needs. -/
theorem Follows.of_atWork (follows : u.Follows p) {ex : Execution}
    (working : u.atWork cycle = some ex) :
    ex.slot.Follows p ∧ ex.turns = u.turnsAt ex.slot.index := by
  unfold atWork at working
  split at working
  next slot taken =>
      cases working
      exact ⟨follows.of_taken (by decide) taken, rfl⟩
  next => exact follows.executing ex working

/-! ## What is asked in a cycle -/

theorem wavefront?_of_mem (sound : u.Sound) {slot : Slot} (member : slot ∈ u.slots) :
    ∃ r, u.wavefronts[slot.index]? = some r ∧ u.wavefront? slot = some r.wavefront := by
  obtain ⟨r, found⟩ := sound.resident_of_mem member
  exact ⟨r, found, by rw [wavefront?, found, Option.map_some]⟩

/-- The answers of a cycle in which the program is asked. -/
abbrev asked (u : ComputeUnit) (p : SyntheticProgram) (memory : μ) (cycle : Nat) : Answers :=
  Bench.answers u memory cycle fun _ => p

theorem fetched_asked (sound : u.Sound) {slot : Slot} (taken : u.taken .fetch = some slot) :
    (u.asked p memory cycle).fetched = p.instruction slot.pc := by
  obtain ⟨r, -, wavefront⟩ := wavefront?_of_mem sound (mem_slots_of_taken taken)
  simp only [asked, Bench.answers, Bench.fetchCall, taken, wavefront]
  rfl

theorem decoded_asked {slot : Slot} {inst : Instruction} (taken : u.taken .decode = some slot)
    (carries : slot.instruction = some inst) :
    (u.asked p memory cycle).decoded.kind = inst.kind := by
  simp only [asked, Bench.answers, Bench.decodeCall, taken, Option.bind_some, carries]
  rfl

/-- A wavefront retires with the instruction at the end of its program. -/
theorem retired_asked (sound : u.Sound) (follows : u.Follows p) {slot : Slot}
    (taken : u.taken .write = some slot) :
    (u.asked p memory cycle).retired = ((p.instruction slot.pc).kind == .end) := by
  obtain ⟨r, -, wavefront⟩ := wavefront?_of_mem sound (mem_slots_of_taken taken)
  have follows : slot.Follows p := follows.of_taken (by decide) taken
  rcases carries : slot.instruction with _ | inst
  · simp [Slot.Follows, carries] at follows
  · have kind : inst.kind = (p.instruction slot.pc).kind := by
      simpa [Slot.Follows, carries] using follows
    simp only [asked, Bench.answers, Bench.writeCall, taken, wavefront, carries]
    rw [← kind]
    rfl

/-- Memory is asked in a cycle exactly if a turn of a load or a store is taken. -/
theorem ready_asked (sound : u.Sound) (follows : u.Follows p) :
    (u.asked p memory cycle).ready.isSome =
      (u.atWork cycle).any fun ex => ex.hasTurn && p.accesses ex.slot.pc := by
  rcases working : u.atWork cycle with _ | ex
  · simp [asked, Bench.answers, Bench.executeCall, working, Bench.memoryCall]
  · obtain ⟨r, found, wavefront⟩ := wavefront?_of_mem sound (mem_slots_of_atWork working)
    obtain ⟨carried, turns⟩ := follows.of_atWork working
    rcases carries : ex.slot.instruction with _ | inst
    · simp [Slot.Follows, carries] at carried
    · have kind : inst.kind = (p.instruction ex.slot.pc).kind := by
        simpa [Slot.Follows, carries] using carried
      cases more : ex.hasTurn with
      | false =>
          simp [asked, Bench.answers, Bench.executeCall, working, Bench.memoryCall, more]
      | true =>
          obtain ⟨count, counted⟩ : ∃ count, r.wavefront.subwavefrontCount? u.lanes.length =
              some count := Bench.subwavefrontCount?_of_width sound.width
          have bound : ex.turn < count := by
            have inside : ex.turn < ex.turns := of_decide_eq_true more
            rwa [turns, turnsAt_of_found found, counted] at inside
          have items := Wavefront.subwavefront_nonempty (follows.items _ r found) follows.lanes
            counted bound
          have request : (InstructionModel.execute p r.wavefront inst
              (r.wavefront.subwavefront ex.turn u.lanes.length)).1.isSome =
                p.accesses ex.slot.pc := by
            show (r.wavefront.request? p.baseAddr inst.kind _).isSome = _
            rw [Wavefront.request?, kind, SyntheticProgram.accesses]
            cases (p.instruction ex.slot.pc).kind.access? with
            | none => rfl
            | some access => simp [items]
          simp only [asked, Bench.answers, Bench.executeCall, working, more, if_true, wavefront,
            carries, Option.any_some, Bool.true_and, ← request]
          cases (InstructionModel.execute p r.wavefront inst
            (r.wavefront.subwavefront ex.turn u.lanes.length)).1 <;> rfl

/-! ## A cycle keeps it -/

@[simp] theorem nextResident_wavefront (index : Nat) (r : Resident) :
    (u.nextResident cycle a index r).wavefront = r.wavefront := by
  unfold nextResident
  split
  · rfl
  · split <;> rfl

@[simp] theorem turnsAt_next (index : Nat) :
    (u.next cycle a).turnsAt index = u.turnsAt index := by
  have lanes : (u.next cycle a).lanes.length = u.lanes.length := u.nextLanes_length cycle
  unfold turnsAt
  rw [lanes, getElem?_next, Option.map_map]
  simp only [Function.comp_def, nextResident_wavefront]

theorem current_nextLatch {stage : Stage} {slot : Slot}
    (held : (u.nextLatch cycle a stage).current = some slot) :
    u.given cycle a stage = some slot ∨ (u.latches.get stage).current = some slot := by
  rcases Option.or_eq_some_iff.mp held with given | ⟨-, left⟩
  · exact Or.inl given
  · split at left
    · cases left
    · exact Or.inr left

/-- Whatever is handed on beyond the fetch stage carries the right kind of instruction. -/
theorem Follows.of_given (follows : u.Follows p) (sound : u.Sound) {stage : Stage} {slot : Slot}
    (later : stage ≠ .schedule)
    (given : u.given cycle (u.asked p memory cycle) stage = some slot) : slot.Follows p := by
  cases stage with
  | schedule => exact absurd rfl later
  | fetch =>
      obtain ⟨old, taken, rfl⟩ := Option.map_eq_some_iff.mp given
      simp [Slot.Follows, fetched_asked sound taken]
  | decode =>
      obtain ⟨old, taken, rfl⟩ := Option.map_eq_some_iff.mp given
      have follows : old.Follows p := follows.of_taken (by decide) taken
      rcases carries : old.instruction with _ | inst
      · simp [Slot.Follows, carries] at follows
      · simpa [Slot.Follows, carries, decoded_asked taken carries] using follows
  | read =>
      obtain ⟨old, taken, rfl⟩ := Option.map_eq_some_iff.mp given
      have follows : old.Follows p := follows.of_taken (by decide) taken
      exact follows
  | execute =>
      obtain ⟨ex, leaves, rfl⟩ := Option.map_eq_some_iff.mp given
      obtain ⟨worked, -⟩ := Option.filter_eq_some_iff.mp leaves
      obtain ⟨before, working, rfl⟩ := Option.map_eq_some_iff.mp worked
      have carried := (follows.of_atWork working).1
      simpa [Slot.Follows] using carried
  | write => cases given

/-- A wavefront that goes on after a cycle has not come to the end of its program. -/
theorem Follows.bounded_next (follows : u.Follows p) (sound : u.Sound) (kept : .end ∉ p.kinds)
    {index : Nat} {r : Resident}
    (found : (u.next cycle (u.asked p memory cycle)).wavefronts[index]? = some r)
    (active : r.retired = false) : r.pc < p.length := by
  rw [getElem?_next, Option.map_eq_some_iff] at found
  obtain ⟨before, found, rfl⟩ := found
  by_cases isNew : ∃ new, u.issued cycle = some new ∧ new.index = index
  · obtain ⟨new, issued, rfl⟩ := isNew
    rw [nextResident_of_issued issued] at active ⊢
    exact follows.bounded _ before found active
  · have unissued : ∀ new, u.issued cycle = some new → new.index ≠ index :=
      fun new issued same => isNew ⟨new, issued, same⟩
    by_cases isWritten : ∃ gone, u.taken .write = some gone ∧ gone.index = index
    · obtain ⟨gone, taken, rfl⟩ := isWritten
      rw [nextResident_of_taken taken unissued] at active ⊢
      simp only [Bool.or_eq_false_iff] at active
      rw [retired_asked sound follows taken, beq_eq_false_iff_ne, ne_eq,
        p.kind_eq_end_iff kept] at active
      exact Nat.succ_lt_succ (Nat.lt_of_not_le active.2)
    · have untaken : ∀ gone, u.taken .write = some gone → gone.index ≠ index :=
        fun gone taken same => isWritten ⟨gone, taken, same⟩
      rw [nextResident_of_ne unissued untaken] at active ⊢
      exact follows.bounded _ before found active

theorem Follows.next (follows : u.Follows p) (sound : u.Sound) (kept : .end ∉ p.kinds) :
    (u.next cycle (u.asked p memory cycle)).Follows p where
  lanes := by
    have lanes : (u.next cycle (u.asked p memory cycle)).lanes.length = u.lanes.length :=
      u.nextLanes_length cycle
    exact lanes ▸ follows.lanes
  items index r found := by
    rw [getElem?_next, Option.map_eq_some_iff] at found
    obtain ⟨before, found, rfl⟩ := found
    rw [nextResident_wavefront]
    exact follows.items index before found
  bounded _ _ found active := follows.bounded_next sound kept found active
  fetched stage later slot held := by
    have latch : (u.nextLatch cycle (u.asked p memory cycle) stage).current = some slot := by
      cases stage with
      | write => cases held
      | _ => exact held
    rcases current_nextLatch latch with given | stayed
    · exact follows.of_given sound later given
    · exact follows.fetched stage later slot stayed
  executing ex working := by
    obtain ⟨worked, -⟩ := Option.filter_eq_some_iff.mp working
    obtain ⟨before, atWork, rfl⟩ := Option.map_eq_some_iff.mp worked
    rw [Execution.advance_slot, Execution.advance_turns, turnsAt_next]
    exact follows.of_atWork atWork

end ComputeUnit

end Accelerator
