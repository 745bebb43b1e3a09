import Accelerator.Proofs.Items
import Accelerator.Proofs.Pipeline.Following
import Mathlib.Data.List.Nodup

/-!
# Units under arbitrary calls

A unit is handed work, stepped and relieved by its device, but nothing in it depends on the device
to do so in a sensible order. `ComputeUnit.Ready` holds between any two calls of a unit, whatever
the calls are and whatever the instruction model and the memory answer. It follows that a step is
refused only for want of a work-group, and that the marks of the wavefronts count the slots of the
pipeline.

The instruction model and the memory are shared between units. So every step finds them in a state
of its own, about which nothing is said.
-/

namespace Accelerator

/-! ## Sub-wavefronts within 32 bits -/

/-- The bounds of every sub-wavefront can be computed in 32 bits. -/
def Wavefront.Fits (w : Wavefront) (lanes : Nat) : Prop :=
  w.items.start ≤ w.items.stop ∧ w.items.stop + lanes < countBound

namespace Wavefront

variable {w : Wavefront} {lanes turn turns : Nat}

theorem Fits.laneWord_eq (fits : w.Fits lanes) : laneWord (max lanes 1) = max lanes 1 := by
  have below := fits.2
  refine Nat.mod_eq_of_lt ?_
  simp only [countBound] at below ⊢
  omega

theorem Fits.laneWord_ne_zero (fits : w.Fits lanes) : laneWord (max lanes 1) ≠ 0 := by
  rw [fits.laneWord_eq]
  omega

/-- As long as there is a turn left, its items begin before the end of the wavefront. -/
theorem Fits.start_le_stop (fits : w.Fits lanes) (counted : w.subwavefrontCount? lanes = some turns)
    (bound : turn < turns) : w.items.start + turn * lanes ≤ w.items.stop := by
  simp only [subwavefrontCount?, fits.laneWord_eq, Option.ite_none_left_eq_some,
    Option.some.injEq] at counted
  obtain ⟨-, rfl⟩ := counted
  have divisor : 0 < max lanes 1 := Nat.le_max_right ..
  have ordered := fits.1
  rcases Nat.eq_zero_or_pos turn with rfl | later
  · omega
  · have inside : turn + 1 ≤ (w.items.length + max lanes 1 - 1) / max lanes 1 := by
      simp only [ceilDiv] at bound
      omega
    have below := (Nat.le_div_iff_mul_le divisor).mp inside
    have wider : turn * lanes ≤ turn * max lanes 1 :=
      Nat.mul_le_mul_left turn (Nat.le_max_left ..)
    rw [Nat.add_mul, Nat.one_mul] at below
    simp only [Span.length] at below
    omega

end Wavefront

namespace ComputeUnit

variable {u : ComputeUnit} {lanes cycle : Nat} {a : Answers}

/-! ## Counting slots -/

/-- With nothing staged, the slots are those that are counted as in flight. -/
theorem slotsInFlight_eq_length (settled : u.latches.Settled) :
    u.slotsInFlight = u.slots.length := by
  have held : ∀ stage, (if !(u.latches.get stage).isEmpty then 1 else 0) =
      (u.latches.get stage).current.toList.length := by
    intro stage
    rcases current : (u.latches.get stage).current with _ | slot <;>
      simp [Latch.isEmpty, current, settled stage]
  have latches : u.latches.heldCount =
      (Stage.handingOn.map fun stage => (u.latches.get stage).current.toList.length).sum := by
    simp only [Latches.heldCount, ← List.countP_eq_length_filter, Stage.handingOn,
      List.countP_cons, List.countP_nil, held, List.map_cons, List.map_nil, List.sum_cons,
      List.sum_nil]
    omega
  have executing : (if u.executing.isSome then 1 else 0) =
      (u.executing.map (·.slot)).toList.length := by
    rcases u.executing with _ | ex <;> rfl
  rw [slotsInFlight, latches, executing]
  simp only [Stage.handingOn, List.map_cons, List.map_nil, List.sum_cons, List.sum_nil, slots,
    List.length_append, Latches.get]
  omega

/-- There is room for a slot in each latch and for one in the execute stage. -/
theorem length_slots_le (u : ComputeUnit) : u.slots.length ≤ 6 := by
  have single : ∀ held : Option Slot, held.toList.length ≤ 1 := by
    intro held
    cases held <;> simp
  have schedule := single u.latches.schedule.current
  have fetch := single u.latches.fetch.current
  have decode := single u.latches.decode.current
  have read := single u.latches.read.current
  have executing := single (u.executing.map (·.slot))
  have execute := single u.latches.execute.current
  simp only [slots, List.length_append]
  omega

/-- The positions of the wavefronts that are marked as in flight. -/
def flagged (u : ComputeUnit) : List Nat :=
  (u.wavefronts.toList.zipIdx.filter (·.1.inFlight)).map (·.2)

theorem mem_flagged {index : Nat} :
    index ∈ u.flagged ↔ ∃ r, u.wavefronts[index]? = some r ∧ r.inFlight = true := by
  simp only [flagged, List.mem_map, List.mem_filter, Prod.exists, exists_eq_right,
    List.mem_zipIdx_iff_getElem?, Array.getElem?_toList]

theorem nodup_flagged (u : ComputeUnit) : u.flagged.Nodup := by
  refine List.Nodup.sublist (List.filter_sublist.map _) ?_
  rw [List.zipIdx_map_snd]
  exact List.nodup_range'

theorem length_flagged (u : ComputeUnit) : u.flagged.length = u.wavefronts.countP (·.inFlight) := by
  have firsts : u.wavefronts.toList.zipIdx.countP (·.1.inFlight) =
      (u.wavefronts.toList.zipIdx.map (·.1)).countP (·.inFlight) := by
    rw [List.countP_map]
    rfl
  rw [flagged, List.length_map, ← List.countP_eq_length_filter, firsts, List.zipIdx_map_fst,
    Array.countP_toList]

/-- The slots of a sound unit belong to the wavefronts that are marked, one to each. -/
theorem Sound.perm_flagged (sound : u.Sound) : (u.slots.map (·.index)).Perm u.flagged := by
  rw [List.perm_ext_iff_of_nodup sound.distinct u.nodup_flagged]
  intro index
  rw [mem_flagged, List.mem_map]
  constructor
  · intro carried
    obtain ⟨slot, member, rfl⟩ := carried
    obtain ⟨r, found, -, -, inFlight, -⟩ := sound.carried slot member
    exact ⟨r, found, inFlight⟩
  · intro marked
    obtain ⟨r, found, inFlight⟩ := marked
    exact sound.flagged index r found inFlight

theorem Sound.length_slots (sound : u.Sound) :
    u.slots.length = u.wavefronts.countP (·.inFlight) := by
  rw [← length_flagged, ← sound.perm_flagged.length_eq, List.length_map]

/-- A wavefront that is marked has exactly one slot. -/
theorem Sound.countP_slots (sound : u.Sound) {index : Nat} {r : Resident}
    (found : u.wavefronts[index]? = some r) (inFlight : r.inFlight = true) :
    u.slots.countP (·.index == index) = 1 := by
  have once : (u.slots.map (·.index)).count index = 1 :=
    List.count_eq_one_of_mem sound.distinct
      (sound.perm_flagged.mem_iff.mpr (mem_flagged.mpr ⟨r, found, inFlight⟩))
  rwa [List.count, List.countP_map] at once

/-! ## What holds between two calls -/

/-- A unit that only calls have changed. The number of lanes matters for the turns of a wavefront
alone; so with no wavefront nothing has to be known about it, and soundness is asked of the unit
without its lanes. -/
structure Ready (u : ComputeUnit) (lanes : Nat) : Prop where
  agrees : ({ u with lanes := [] } : ComputeUnit).Sound
  width : u.lanes.length = lanes
  fits : ∀ (index : Nat) (r : Resident), u.wavefronts[index]? = some r → r.wavefront.Fits lanes
  /-- What is executed takes as many turns as its wavefront has sub-wavefronts. -/
  timed : ∀ ex, u.executing = some ex → ex.turns = u.turnsAt ex.slot.index

/-- Nothing that makes a unit sound, apart from their number, has to do with lanes. -/
theorem Sound.withLanes (sound : u.Sound) {row : List Lane}
    (width : laneWord (max row.length 1) ≠ 0) : ({ u with lanes := row } : ComputeUnit).Sound :=
  ⟨sound.settled, width, sound.distinct, sound.carried, sound.flagged, sound.unassigned⟩

theorem Sound.agrees (sound : u.Sound) : ({ u with lanes := [] } : ComputeUnit).Sound :=
  sound.withLanes (by decide)

theorem Ready.sound (ready : u.Ready lanes) {index : Nat} {r : Resident}
    (found : u.wavefronts[index]? = some r) : u.Sound := by
  have wide : laneWord (max u.lanes.length 1) ≠ 0 := by
    rw [ready.width]
    exact (ready.fits index r found).laneWord_ne_zero
  exact ready.agrees.withLanes wide

/-- A unit that has work left is sound. -/
theorem Ready.sound_of_not_drained (ready : u.Ready lanes) (drained : u.isDrained = false) :
    u.Sound := by
  rcases first : u.wavefronts[0]? with _ | r
  · have none : u.wavefronts = #[] := by simpa using first
    have empty : u.slots = [] := by
      rw [List.eq_nil_iff_forall_not_mem]
      intro slot member
      obtain ⟨r, found, -⟩ := ready.agrees.carried slot member
      simp [none] at found
    have ended : u.isDrained = true :=
      ready.agrees.isDrained_iff.mpr ⟨empty, by simp [none]⟩
    rw [ended] at drained
    cases drained
  · exact ready.sound first

theorem Ready.create (id deviceId lanes : Nat) (order : StageOrder) :
    Ready { ComputeUnit.create id deviceId lanes with order } lanes where
  agrees := by
    have none : (ComputeUnit.create id deviceId 0).Sound := Sound.create (by decide)
    exact none.withOrder order
  width := by simp [ComputeUnit.create]
  fits _ _ found := by cases found
  timed _ working := by cases working

/-! ## Every call keeps it -/

/-- What is at work in the execute stage, be it new or not, takes the turns of its wavefront. -/
theorem Ready.of_atWork (ready : u.Ready lanes) {ex : Execution}
    (working : u.atWork cycle = some ex) : ex.turns = u.turnsAt ex.slot.index := by
  unfold atWork at working
  split at working
  next => exact Option.some.inj working ▸ rfl
  next => exact ready.timed ex working

theorem Ready.next (ready : u.Ready lanes) (sound : u.Sound) (cycle : Nat) (a : Answers) :
    (u.next cycle a).Ready lanes where
  agrees := (sound.next cycle a).agrees
  width := (u.nextLanes_length cycle).trans ready.width
  fits index r found := by
    rw [getElem?_next, Option.map_eq_some_iff] at found
    obtain ⟨before, found, rfl⟩ := found
    rw [nextResident_wavefront]
    exact ready.fits index before found
  timed ex working := by
    obtain ⟨worked, -⟩ := Option.filter_eq_some_iff.mp working
    obtain ⟨before, atWork, rfl⟩ := Option.map_eq_some_iff.mp worked
    rw [Execution.advance_slot, Execution.advance_turns, turnsAt_next]
    exact ready.of_atWork atWork

theorem Ready.assign (ready : u.Ready lanes) {group : Nat} {wavefronts : List Wavefront}
    {assigned : ComputeUnit} (given : u.assign group wavefronts = .ok assigned)
    (fits : ∀ w ∈ wavefronts, w.Fits lanes) : assigned.Ready lanes := by
  unfold ComputeUnit.assign at given
  split at given
  next => cases given
  next free =>
      have agrees : ({ u with lanes := [] } : ComputeUnit).assign group wavefronts =
          .ok { assigned with lanes := [] } := by
        unfold ComputeUnit.assign
        simp only [free]
        cases given
        rfl
      cases given
      refine ⟨ready.agrees.assign agrees, ready.width, ?_, ?_⟩
      · intro index r found
        simp only [List.getElem?_toArray, List.getElem?_map, Option.map_eq_some_iff] at found
        obtain ⟨w, found, rfl⟩ := found
        exact fits w (List.mem_of_getElem? found)
      · intro ex working
        have empty : u.slots = [] := ready.agrees.slots_eq_nil free
        have working : u.executing = some ex := working
        simp [slots, working] at empty

/-- A unit is relieved of its work-group if it has finished one, and is else left alone. -/
theorem release_snd (u : ComputeUnit) :
    u.release.2 = u ∨ u.isDrained = true ∧ u.release.2 = { u.idleLanes with
      group := none
      wavefronts := #[]
      stats := { u.stats with groups := u.stats.groups + 1 } } := by
  unfold ComputeUnit.release
  split
  · split
    next drained => exact .inr ⟨drained, rfl⟩
    next => exact .inl rfl
  · exact .inl rfl

theorem Ready.release (ready : u.Ready lanes) : u.release.2.Ready lanes := by
  rcases u.release_snd with same | ⟨drained, relieved⟩
  · rw [same]
    exact ready
  · have empty : u.slots = [] := slots_eq_nil_of_isDrained drained
    rw [relieved]
    refine ⟨⟨ready.agrees.settled, ready.agrees.width, ready.agrees.distinct, ?_, ?_, fun _ => rfl⟩, ?_, ?_,
      ?_⟩
    · intro slot member
      exact absurd (empty ▸ member : slot ∈ []) List.not_mem_nil
    · intro _ _ found
      simp at found
    · simpa [idleLanes] using ready.width
    · intro _ _ found
      simp at found
    · intro ex working
      have working : u.executing = some ex := working
      simp [slots, working] at empty

end ComputeUnit

/-! ## Calls -/

namespace ComputeUnit

/-- A call of a unit. A step comes with the instruction model and the memory as it finds them. -/
inductive Call (ι μ : Type) where
  | assign (group : Nat) (wavefronts : List Wavefront)
  | step (cycle : Nat) (isa : ι) (memory : μ)
  | release

variable {ι μ : Type} [InstructionModel ι] [MemoryService μ] {u : ComputeUnit} {lanes : Nat}

/-- What a step answers, and what it leads to. -/
def stepped (u : ComputeUnit) (cycle : Nat) (isa : ι) (memory : μ) :
    Except Error (Progress × Bench ι μ) :=
  Bench.step cycle { unit := u, isa, memory }

/-- The unit after a call. A refused one leaves it as it is. -/
def afterCall (u : ComputeUnit) : Call ι μ → ComputeUnit
  | .assign group wavefronts =>
    match u.assign group wavefronts with
    | .ok assigned => assigned
    | .error _ => u
  | .step cycle isa memory =>
    match u.stepped cycle isa memory with
    | .ok (_, b) => b.unit
    | .error _ => u
  | .release => u.release.2

/-- The unit after several calls. -/
def afterCalls (u : ComputeUnit) (calls : List (Call ι μ)) : ComputeUnit := calls.foldl afterCall u

/-- A unit without a work-group refuses to be stepped. -/
theorem stepped_of_free (free : u.group = none) (cycle : Nat) (isa : ι) (memory : μ) :
    u.stepped cycle isa memory = .error (.idleUnit u.id) := by
  unfold stepped Bench.step Bench.stepIn
  rw [free]
  rfl

theorem Sound.stepped_eq (sound : u.Sound) {group : Nat} (held : u.group = some group) (cycle : Nat)
    (isa : ι) (memory : μ) :
    u.stepped cycle isa memory =
      .ok ((Bench.cycled u.order cycle group { unit := u, isa, memory }).progress group,
        Bench.cycled u.order cycle group { unit := u, isa, memory }) :=
  Bench.stepIn_eq sound rfl held u.order cycle

/-- A unit with a work-group is stepped, and what it leads to is the unit after a cycle, if there
was something left to do. -/
theorem Ready.stepped_eq (ready : u.Ready lanes) {group : Nat} (held : u.group = some group)
    (cycle : Nat) (isa : ι) (memory : μ) :
    ∃ progress b, u.stepped cycle isa memory = .ok (progress, b) ∧
      (b.unit = u ∨ u.Sound ∧ ∃ a, b.unit = u.next cycle a) := by
  cases drained : u.isDrained with
  | true =>
      refine ⟨.finished group, { unit := u, isa, memory }, ?_, .inl rfl⟩
      unfold stepped Bench.step Bench.stepIn
      simp only [held, drained, if_true]
      rfl
  | false =>
      have sound := ready.sound_of_not_drained drained
      refine ⟨_, _, Bench.stepIn_eq sound rfl held u.order cycle, .inr ⟨sound, ?_⟩⟩
      rw [Bench.cycled, drained]
      exact ⟨_, rfl⟩

theorem Ready.afterCall (ready : u.Ready lanes) (call : Call ι μ)
    (fits : ∀ group wavefronts, call = .assign group wavefronts → ∀ w ∈ wavefronts, w.Fits lanes) :
    (u.afterCall call).Ready lanes := by
  cases call with
  | assign group wavefronts =>
      simp only [ComputeUnit.afterCall]
      split
      next assigned given => exact ready.assign given (fits group wavefronts rfl)
      next => exact ready
  | step cycle isa memory =>
      simp only [ComputeUnit.afterCall]
      rcases held : u.group with _ | group
      · rw [stepped_of_free held]
        exact ready
      · obtain ⟨progress, b, stepped, unit⟩ := ready.stepped_eq held cycle isa memory
        rw [stepped]
        show b.unit.Ready lanes
        rcases unit with same | ⟨sound, a, next⟩
        · exact same ▸ ready
        · exact next ▸ ready.next sound cycle a
  | release => exact ready.release

theorem Ready.afterCalls (ready : u.Ready lanes) (calls : List (Call ι μ))
    (fits : ∀ group wavefronts, .assign group wavefronts ∈ calls →
      ∀ w ∈ wavefronts, w.Fits lanes) : (u.afterCalls calls).Ready lanes := by
  induction calls generalizing u with
  | nil => exact ready
  | cons call rest ih =>
      refine ih (ready.afterCall call ?_) ?_
      · rintro group wavefronts rfl
        exact fits group wavefronts (List.mem_cons_self ..)
      · intro group wavefronts later
        exact fits group wavefronts (List.mem_cons_of_mem _ later)

/-- What is at work in the execute stage and has a turn left keeps within 32 bits, and within the
row of lanes. -/
theorem Ready.turn_in_range (ready : u.Ready lanes) {cycle : Nat} {ex : Execution}
    (working : u.atWork cycle = some ex) (more : ex.hasTurn = true) :
    ∃ w, u.wavefront? ex.slot = some w ∧
      w.items.start + ex.turn * lanes + lanes < countBound ∧
      (w.subwavefront ex.turn u.lanes.length).length ≤ u.lanes.length := by
  have member : ex.slot ∈ u.slots := mem_slots_of_atWork working
  obtain ⟨r, found, -⟩ := ready.agrees.carried ex.slot member
  have fits := ready.fits ex.slot.index r found
  obtain ⟨turns, counted⟩ : ∃ turns, r.wavefront.subwavefrontCount? lanes = some turns :=
    Bench.subwavefrontCount?_of_width fits.laneWord_ne_zero
  have bound : ex.turn < turns := by
    have inside : ex.turn < ex.turns := of_decide_eq_true more
    have found : u.wavefronts[ex.slot.index]? = some r := found
    rwa [ready.of_atWork working, turnsAt, found, Option.map_some, Option.bind_some, ready.width,
      counted, Option.getD_some] at inside
  refine ⟨r.wavefront, congrArg (Option.map Resident.wavefront) found, ?_,
    Wavefront.length_subwavefront_le ..⟩
  have before := fits.start_le_stop counted bound
  have below := fits.2
  omega

/-! ## Whatever is asked of a unit -/

/-- Whatever is asked of a new unit, in whatever order, and whether it is refused or not, so long as
the bounds of sub-wavefronts can be computed in 32 bits. A step is refused exactly if the unit holds
no work-group. The next cycle issues for a wavefront that exists, and what it executes stays within
the row of lanes. Nothing is staged between calls. A wavefront that is in flight has one slot, and a
slot carries the next instruction of a wavefront that is in flight and has not retired. -/
theorem calls_never_fault (id deviceId lanes : Nat) (order : StageOrder) (calls : List (Call ι μ))
    (fits : ∀ group wavefronts, .assign group wavefronts ∈ calls →
      ∀ w ∈ wavefronts, w.Fits lanes) :
    let u := afterCalls { ComputeUnit.create id deviceId lanes with order } calls
    (∀ (cycle : Nat) (isa : ι) (memory : μ) (error : Error),
      u.stepped cycle isa memory = .error error ↔ u.group = none ∧ error = .idleUnit u.id) ∧
    (∀ index, u.plan.issue = some index → index < u.wavefronts.size) ∧
    (∀ (cycle : Nat) (ex : Execution), u.atWork cycle = some ex → ex.hasTurn = true →
      ∃ w, u.wavefront? ex.slot = some w ∧
        w.items.start + ex.turn * lanes + lanes < countBound ∧
        (w.subwavefront ex.turn u.lanes.length).length ≤ u.lanes.length) ∧
    u.latches.Settled ∧
    (∀ (index : Nat) (r : Resident), u.wavefronts[index]? = some r → r.inFlight = true →
      u.slots.countP (·.index == index) = 1) ∧
    (∀ slot ∈ u.slots, ∃ r, u.wavefronts[slot.index]? = some r ∧
      slot.wavefront = r.wavefront.id ∧ slot.pc = r.pc ∧ r.inFlight = true ∧
      r.retired = false) ∧
    u.slotsInFlight = u.wavefronts.countP (·.inFlight) ∧ u.slotsInFlight ≤ 6 := by
  intro u
  have ready : u.Ready lanes := (Ready.create id deviceId lanes order).afterCalls calls fits
  have count : u.slotsInFlight = u.slots.length := slotsInFlight_eq_length ready.agrees.settled
  refine ⟨fun cycle isa memory error => ⟨fun refused => ?_, fun free => ?_⟩, fun index issue => ?_,
    fun cycle ex => ready.turn_in_range, ready.agrees.settled,
    fun index r found inFlight => ready.agrees.countP_slots found inFlight, ready.agrees.carried,
    count.trans ready.agrees.length_slots, count ▸ u.length_slots_le⟩
  · rcases held : u.group with _ | group
    · rw [stepped_of_free held] at refused
      cases refused
      exact ⟨rfl, rfl⟩
    · obtain ⟨progress, b, stepped, -⟩ := ready.stepped_eq held cycle isa memory
      rw [stepped] at refused
      cases refused
  · obtain ⟨free, rfl⟩ := free
    exact stepped_of_free free cycle isa memory
  · obtain ⟨r, found, -⟩ := issuable_of_issue issue
    exact (Array.getElem?_eq_some_iff.mp found).1

/-- A unit of two lanes with two wavefronts, after calls some of which are refused: two slots are in
the pipeline, and the next step is not refused. -/
theorem calls_never_fault_on_two_wavefronts :
    let u := afterCalls (ComputeUnit.create 3 0 2)
      [.step 0 (SyntheticProgram.ofKinds [.load]) ({ latency := 3 } : FixedLatency),
        .assign 5 [{ id := 7, items := ⟨0, 4⟩ }, { id := 8, items := ⟨4, 5⟩ }],
        .step 1 (.ofKinds [.load]) { latency := 3 }, .release, .assign 6 [],
        .step 9 (.ofKinds [.load]) { latency := 3 }]
    u.group = some 5 ∧ u.slotsInFlight = 2 ∧ u.wavefronts.countP (·.inFlight) = 2 ∧
      ∀ error, u.stepped 10 (SyntheticProgram.ofKinds [.load]) ({ latency := 3 } : FixedLatency) ≠
        .error error := by
  intro u
  have held : u.group = some 5 := by decide +kernel
  have slots : u.slotsInFlight = 2 := by decide +kernel
  obtain ⟨steps, -, -, -, -, -, counted, -⟩ := calls_never_fault 3 0 2 .reverse
    [.step 0 (SyntheticProgram.ofKinds [.load]) ({ latency := 3 } : FixedLatency),
      .assign 5 [{ id := 7, items := ⟨0, 4⟩ }, { id := 8, items := ⟨4, 5⟩ }],
      .step 1 (.ofKinds [.load]) { latency := 3 }, .release, .assign 6 [],
      .step 9 (.ofKinds [.load]) { latency := 3 }] (by
        intro group wavefronts member
        simp only [List.mem_cons, reduceCtorEq, Call.assign.injEq, List.not_mem_nil, or_false,
          false_or] at member
        rcases member with ⟨-, rfl⟩ | ⟨-, rfl⟩
        · simp [Wavefront.Fits, countBound]
        · simp)
  refine ⟨held, slots, counted.symm.trans slots, fun error refused => ?_⟩
  have clash : some 5 = none := held.symm.trans ((steps _ _ _ error).mp refused).1
  cases clash

end ComputeUnit

end Accelerator
