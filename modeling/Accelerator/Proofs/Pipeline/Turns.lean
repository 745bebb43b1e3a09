import Accelerator.Proofs.Items
import Accelerator.Proofs.Pipeline.Tariff

/-!
# Turns of a wavefront

The lanes work off a wavefront instruction by instruction, and each instruction sub-wavefront by
sub-wavefront. `ComputeUnit.turnsTaken` counts how many turns a wavefront has had so far; in a cycle
it goes up by one for the wavefront that has a turn then, and for no other (`turnsTaken_next`).

A `Share` is what the lanes do in one turn. It settles which lane is given which item, and which
bytes memory is asked for.
-/

namespace Accelerator

/-! ## Shares -/

/-- One turn: the items of a sub-wavefront, and the instruction at `pc` that is executed for them. -/
structure Share where
  unit : Nat
  group : Nat
  /-- Position of the wavefront in its group. -/
  index : Nat
  wavefront : Wavefront
  pc : Nat
  turn : Nat

/-- An item that a lane is given, for the instruction at `pc`. -/
structure Issue where
  unit : Nat
  lane : Nat
  pc : Option Nat
  item : Nat

/-- What lanes have been given since they were as in `before`: a lane whose counter has gone up shows
its item. -/
def Issue.between (unit : Nat) (pc : Option Nat) (before after : List Lane) : List Issue :=
  (List.range after.length).filterMap fun lane => do
    let old ← before[lane]?
    let new ← after[lane]?
    let work ← new.current
    if old.ops < new.ops then some { unit, lane, pc, item := work.item } else none

namespace Share

/-- The items of the turn, by their global numbers. -/
def items (s : Share) (lanes : Nat) : List Nat := s.wavefront.itemsAt s.turn lanes

/-- The lanes are given one item each, from the first lane on. -/
def issues (s : Share) (lanes : Nat) : List Issue :=
  (List.range (s.wavefront.subwavefront s.turn lanes).length).map fun lane =>
    { unit := s.unit, lane, pc := some s.pc
      item := s.wavefront.globalId ((s.wavefront.subwavefront s.turn lanes).start + lane) }

/-- What memory is asked for in the turn. -/
def request? (s : Share) (p : SyntheticProgram) (lanes : Nat) : Option MemoryRequest :=
  s.wavefront.request? p.baseAddr (p.instruction s.pc).kind (s.wavefront.subwavefront s.turn lanes)

theorem map_item_issues (s : Share) (lanes : Nat) :
    (s.issues lanes).map (·.item) = s.items lanes := by
  rw [issues, items, Wavefront.itemsAt, Span.toList, List.range'_eq_map_range, List.map_map,
    List.map_map]
  rfl

end Share

/-! ## What lanes are given -/

section Lanes

variable {lanes : List Lane} {items : Span} {work : Nat → LaneWork} {unit : Nat} {pc : Option Nat}

theorem Issue.between_idle (unit : Nat) (pc : Option Nat) (lanes : List Lane) :
    Issue.between unit pc lanes (lanes.map Lane.idle) = [] := by
  refine List.filterMap_eq_nil_iff.mpr fun lane _ => ?_
  rcases found : lanes[lane]? with _ | old <;> simp [found, Lane.idle]

/-- A row that has at least as many lanes as there are items gives each of them to a lane. -/
theorem Issue.between_issueAll (short : items.length ≤ lanes.length) :
    Issue.between unit pc lanes (Lane.issueAll lanes items work) =
      (List.range items.length).map fun lane =>
        { unit, lane, pc, item := (work (items.start + lane)).item } := by
  let given : Nat → Issue := fun lane =>
    { unit, lane, pc, item := (work (items.start + lane)).item }
  have each : ∀ lane ∈ List.range (Lane.issueAll lanes items work).length, (do
      let old ← lanes[lane]?
      let new ← (Lane.issueAll lanes items work)[lane]?
      let work ← new.current
      if old.ops < new.ops then some ({ unit, lane, pc, item := work.item } : Issue) else none) =
        if lane < items.length then some (given lane) else none := by
    intro lane inside
    have inRow : lane < lanes.length := by simpa [Lane.issueAll] using inside
    obtain ⟨old, found⟩ : ∃ old, lanes[lane]? = some old := ⟨_, List.getElem?_eq_getElem inRow⟩
    have inItems : lane < items.length ↔ items.start + lane < items.stop := by
      simp only [Span.length]
      omega
    by_cases more : items.start + lane < items.stop <;>
      simp [Lane.issueAll, found, inItems, more, Lane.issue, Lane.idle, given]
  obtain ⟨rest, whole⟩ : ∃ rest, (Lane.issueAll lanes items work).length = items.length + rest := by
    refine Nat.exists_eq_add_of_le ?_
    simpa [Lane.issueAll] using short
  rw [Issue.between, List.filterMap_congr each, whole, List.range_add, List.filterMap_append]
  have first : (List.range items.length).filterMap
      (fun lane => if lane < items.length then some (given lane) else none) =
        (List.range items.length).map given := by
    rw [← List.filterMap_eq_map]
    exact List.filterMap_congr fun lane inside => if_pos (List.mem_range.mp inside)
  have others : ((List.range rest).map (items.length + ·)).filterMap
      (fun lane => if lane < items.length then some (given lane) else none) = [] := by
    refine List.filterMap_eq_nil_iff.mpr fun lane member => ?_
    obtain ⟨i, -, rfl⟩ := List.mem_map.mp member
    exact if_neg (Nat.not_lt.mpr (Nat.le_add_right ..))
  rw [first, others, List.append_nil]

theorem Lane.sum_ops_idle (lanes : List Lane) :
    ((lanes.map Lane.idle).map (·.ops)).sum = (lanes.map (·.ops)).sum := by
  rw [List.map_map]
  rfl

theorem Lane.sum_ops_issueAll (short : items.length ≤ lanes.length) :
    ((Lane.issueAll lanes items work).map (·.ops)).sum = (lanes.map (·.ops)).sum + items.length := by
  induction lanes generalizing items with
  | nil =>
      rw [Nat.le_zero.mp short]
      rfl
  | cons lane rest ih =>
      have others : Lane.issueAll (lane :: rest) items work =
          (if items.start < items.stop then lane.issue (work items.start) else lane.idle) ::
            Lane.issueAll rest ⟨items.start + 1, items.stop⟩ work := by
        simp [Lane.issueAll, List.mapIdx_cons, Nat.add_assoc, Nat.add_comm 1]
      have shorter : (⟨items.start + 1, items.stop⟩ : Span).length ≤ rest.length := by
        simp only [Span.length, List.length_cons] at short ⊢
        omega
      rw [others, List.map_cons, List.sum_cons, ih shorter, List.map_cons, List.sum_cons]
      simp only [Span.length]
      split <;> simp only [Lane.issue, Lane.idle] <;> omega

end Lanes

namespace ComputeUnit

/-- What the lanes do in a cycle, for the group that the unit holds. -/
def share (u : ComputeUnit) (cycle group : Nat) : Option Share :=
  ((u.atWork cycle).filter (·.hasTurn)).bind fun ex =>
    (u.wavefront? ex.slot).map fun wavefront =>
      { unit := u.id, group, index := ex.slot.index, wavefront, pc := ex.slot.pc, turn := ex.turn }

/-- What the counters of all lanes add up to. -/
def ops (u : ComputeUnit) : Nat := (u.lanes.map (·.ops)).sum

/-! ## Counting turns -/

/-- The turns that are over for the slot in the execute stage, if it is of the given wavefront. -/
def turnsOver (index : Nat) (ex : Execution) : Nat :=
  if ex.slot.index = index then min ex.turn ex.turns else 0

/-- The turns that the instruction in flight has had already. -/
def turnsUnderWay (u : ComputeUnit) (index : Nat) : Nat :=
  weight u.executing (turnsOver index) +
    weight u.latches.execute.current fun slot => if slot.index = index then u.turnsAt index else 0

/-- The position of the instruction that the wavefront is at. -/
def pcAt (u : ComputeUnit) (index : Nat) : Nat := weight u.wavefronts[index]? (·.pc)

/-- All turns that a wavefront has had. -/
def turnsTaken (u : ComputeUnit) (index : Nat) : Nat :=
  u.pcAt index * u.turnsAt index + u.turnsUnderWay index

variable {u : ComputeUnit} {p : SyntheticProgram} {cycle group index : Nat} {a : Answers}

/-- A slot that is taken up has had no turn yet. -/
theorem weight_atWork_turnsOver (u : ComputeUnit) (cycle index : Nat) :
    weight (u.atWork cycle) (turnsOver index) = weight u.executing (turnsOver index) := by
  unfold atWork
  split
  next slot taken =>
      rw [executing_eq_none_of_taken taken]
      simp [weight, turnsOver]
  next => rfl

theorem turnsOver_advance (index : Nat) (ex : Execution) (ready : Option Nat) :
    turnsOver index (ex.advance ready) =
      turnsOver index ex + if ex.hasTurn ∧ ex.slot.index = index then 1 else 0 := by
  by_cases same : ex.slot.index = index
  · by_cases more : ex.turn < ex.turns
    · have after : ex.turn + 1 ≤ ex.turns := more
      simp [turnsOver, Execution.advance, Execution.hasTurn, same, more,
        Nat.le_of_lt more, after]
    · simp [turnsOver, Execution.advance, Execution.hasTurn, same, more]
  · simp [turnsOver, same]

/-- A slot that is handed on has had all its turns. -/
theorem Follows.weight_worked (follows : u.Follows p) :
    weight (u.next cycle a).executing (turnsOver index) +
        weight (u.given cycle a .execute)
          (fun slot => if slot.index = index then u.turnsAt index else 0) =
      weight (u.atWork cycle) fun ex =>
        turnsOver index ex + if ex.hasTurn ∧ ex.slot.index = index then 1 else 0 := by
  have executing : (u.next cycle a).executing = (u.worked cycle a).filter (!·.isOver cycle) := rfl
  rw [executing, given]
  rcases working : u.atWork cycle with _ | ex
  · simp [worked, working, weight]
  · have worked : u.worked cycle a = some (ex.advance a.ready) := by simp [worked, working]
    have turns := (follows.of_atWork working).2
    have after := turnsOver_advance index ex a.ready
    rw [worked]
    cases leaves : (ex.advance a.ready).isOver cycle with
    | false => simpa [Option.filter, leaves, weight] using after
    | true =>
        have last : (ex.advance a.ready).turns ≤ (ex.advance a.ready).turn := by
          simp only [Execution.isOver, Execution.hasTurn, Bool.and_eq_true, Bool.not_eq_true',
            decide_eq_false_iff_not] at leaves
          omega
        have whole : turnsOver index (ex.advance a.ready) =
            if ex.slot.index = index then u.turnsAt index else 0 := by
          rw [turnsOver, Nat.min_eq_right last, Execution.advance_slot, Execution.advance_turns,
            turns]
          by_cases same : ex.slot.index = index <;> simp [same]
        simpa [Option.filter, leaves, weight, ← whole] using after

/-- A wavefront is at its next instruction once the one before is written back. -/
theorem Sound.pcAt_next (sound : u.Sound) (cycle index : Nat) (a : Answers) :
    (u.next cycle a).pcAt index =
      u.pcAt index + weight (u.taken .write) fun slot => if slot.index = index then 1 else 0 := by
  unfold pcAt
  rw [getElem?_next]
  by_cases isWritten : ∃ gone, u.taken .write = some gone ∧ gone.index = index
  · obtain ⟨gone, taken, rfl⟩ := isWritten
    have member := mem_slots_of_taken taken
    obtain ⟨r, found, -, pc, -⟩ := sound.carried gone member
    rw [found, taken, Option.map_some, nextResident_of_taken taken fun new issued =>
      sound.issued_ne issued member]
    simp [weight, pc]
  · have untaken : ∀ gone, u.taken .write = some gone → gone.index ≠ index :=
      fun gone taken same => isWritten ⟨gone, taken, same⟩
    have same : ∀ r, (u.nextResident cycle a index r).pc = r.pc :=
      nextResident_pc_of_unwritten untaken
    have nothing : (weight (u.taken .write) fun slot => if slot.index = index then 1 else 0) = 0 := by
      rcases taken : u.taken .write with _ | gone
      · rfl
      · simp [weight, untaken gone taken]
    rw [nothing, Nat.add_zero, weight_map]
    simp only [Function.comp_def, same]

theorem Sound.weight_share (sound : u.Sound) (cycle group index : Nat) :
    (weight (u.share cycle group) fun s => if s.index = index then 1 else 0) =
      weight (u.atWork cycle) fun ex => if ex.hasTurn ∧ ex.slot.index = index then 1 else 0 := by
  unfold share
  rcases working : u.atWork cycle with _ | ex
  · rfl
  · obtain ⟨r, -, wavefront⟩ := wavefront?_of_mem sound (mem_slots_of_atWork working)
    cases more : ex.hasTurn <;> simp [weight, Option.filter, more, wavefront]

/-- The wavefront that has a turn in a cycle has had one turn more after it, and no other has. -/
theorem Follows.turnsTaken_next (follows : u.Follows p) (sound : u.Sound) (cycle group index : Nat)
    (a : Answers) :
    (u.next cycle a).turnsTaken index =
      u.turnsTaken index + weight (u.share cycle group) fun s => if s.index = index then 1 else 0 := by
  let last : Slot → Nat := fun slot => if slot.index = index then u.turnsAt index else 0
  have latch : weight (u.nextLatch cycle a .execute).current last =
      weight (u.given cycle a .execute) last := by
    have moved := u.weight_nextLatch cycle a .execute (by decide) last
    rw [show u.taken Stage.execute.reader = u.latches.execute.current from u.taken_write] at moved
    exact Nat.add_right_cancel moved
  have executed : weight (u.next cycle a).executing (turnsOver index) +
      weight (u.given cycle a .execute) last =
        weight u.executing (turnsOver index) +
          weight (u.share cycle group) fun s => if s.index = index then 1 else 0 := by
    rw [follows.weight_worked, weight_add, weight_atWork_turnsOver, sound.weight_share]
  -- An instruction that is written back has had its turns, and counts for the program counter.
  have written : (weight (u.taken .write) fun slot => if slot.index = index then 1 else 0) *
      u.turnsAt index = weight u.latches.execute.current last := by
    rw [u.taken_write]
    rcases u.latches.execute.current with _ | slot
    · exact Nat.zero_mul _
    · by_cases same : slot.index = index <;> simp [weight, last, same]
  have underWay : (u.next cycle a).turnsUnderWay index =
      weight (u.next cycle a).executing (turnsOver index) +
        weight (u.nextLatch cycle a .execute).current last := by
    unfold turnsUnderWay
    rw [turnsAt_next]
    rfl
  rw [turnsTaken, turnsTaken, underWay, latch, executed, turnsAt_next, sound.pcAt_next, Nat.add_mul,
    written, turnsUnderWay]
  simp only [last]
  omega

/-- The slot at work and the one that is written back belong to different wavefronts. -/
theorem Sound.atWork_ne_written (sound : u.Sound) {ex : Execution} {slot : Slot}
    (working : u.atWork cycle = some ex) (held : u.latches.execute.current = some slot) :
    slot.index ≠ ex.slot.index := by
  have distinct := sound.distinct
  simp only [slots, held, List.map_append] at distinct
  have before := (List.nodup_append.mp distinct).2.2
  have member : ex.slot ∈ u.latches.read.current.toList ++ (u.executing.map (·.slot)).toList := by
    unfold atWork at working
    split at working
    next other taken =>
      cases working
      exact List.mem_append_left _ (Option.mem_toList.mpr (Option.ite_none_right_eq_some.mp taken).2)
    next => simp [working]
  refine fun same => before ex.slot.index ?_ slot.index (by simp) same.symm
  rcases List.mem_append.mp member with read | executing
  · exact List.mem_append_left _ (List.mem_append_right _ (List.mem_map_of_mem read))
  · exact List.mem_append_right _ (List.mem_map_of_mem executing)

/-- The turn that a wavefront has is the one that comes after those it has had. -/
theorem Follows.share_eq (follows : u.Follows p) (sound : u.Sound) {s : Share}
    (shared : u.share cycle group = some s) :
    ∃ r, u.wavefronts[s.index]? = some r ∧ s.wavefront = r.wavefront ∧ s.group = group ∧
      s.unit = u.id ∧ s.turn < u.turnsAt s.index ∧
      u.turnsTaken s.index = s.pc * u.turnsAt s.index + s.turn := by
  obtain ⟨ex, filtered, mapped⟩ := Option.bind_eq_some_iff.mp shared
  obtain ⟨working, more⟩ := Option.filter_eq_some_iff.mp filtered
  obtain ⟨w, wavefront, rfl⟩ := Option.map_eq_some_iff.mp mapped
  have member := mem_slots_of_atWork working
  obtain ⟨r, found, -, pc, -⟩ := sound.carried ex.slot member
  have turns := (follows.of_atWork working).2
  have bound : ex.turn < ex.turns := of_decide_eq_true more
  rw [wavefront?, found, Option.map_some] at wavefront
  refine ⟨r, found, (Option.some.inj wavefront).symm, rfl, rfl, turns ▸ bound, ?_⟩
  have ended : weight u.executing (turnsOver ex.slot.index) = ex.turn := by
    rw [← u.weight_atWork_turnsOver cycle, working]
    simp [weight, turnsOver, Nat.min_eq_left (Nat.le_of_lt bound)]
  have alone : (weight u.latches.execute.current fun slot =>
      if slot.index = ex.slot.index then u.turnsAt ex.slot.index else 0) = 0 := by
    rcases held : u.latches.execute.current with _ | slot
    · rfl
    · exact if_neg (sound.atWork_ne_written working held)
  simp only [turnsTaken, turnsUnderWay, pcAt, found, ended, alone]
  simp [weight, pc]

/-! ## What a turn does -/

/-- In a cycle the lanes are given the items of the turn that is taken. -/
theorem Sound.between_nextLanes (sound : u.Sound) (cycle group : Nat) :
    Issue.between u.id ((u.atWork cycle).map (·.slot.pc)) u.lanes (u.nextLanes cycle) =
      (u.share cycle group).toList.flatMap (·.issues u.lanes.length) := by
  unfold nextLanes share
  rcases working : u.atWork cycle with _ | ex
  · exact Issue.between_idle ..
  · obtain ⟨r, -, wavefront⟩ := wavefront?_of_mem sound (mem_slots_of_atWork working)
    cases more : ex.hasTurn with
    | false => simp [wavefront, more, Option.filter, Issue.between_idle]
    | true =>
        have short := r.wavefront.length_subwavefront_le ex.turn u.lanes.length
        simp [wavefront, more, Option.filter, Issue.between_issueAll short, Share.issues]

/-- The counters of the lanes go up by one for each item. -/
theorem Sound.sum_ops_nextLanes (sound : u.Sound) (cycle group : Nat) :
    ((u.nextLanes cycle).map (·.ops)).sum = (u.lanes.map (·.ops)).sum +
      ((u.share cycle group).toList.flatMap (·.issues u.lanes.length)).length := by
  unfold nextLanes share
  rcases working : u.atWork cycle with _ | ex
  · exact Lane.sum_ops_idle ..
  · obtain ⟨r, -, wavefront⟩ := wavefront?_of_mem sound (mem_slots_of_atWork working)
    cases more : ex.hasTurn with
    | false => simpa [wavefront, more, Option.filter] using Lane.sum_ops_idle u.lanes
    | true =>
        have short := r.wavefront.length_subwavefront_le ex.turn u.lanes.length
        simp [wavefront, more, Option.filter, Lane.sum_ops_issueAll short, Share.issues]

/-- In a cycle memory is asked for what the turn that is taken needs. -/
theorem Follows.executeCall_eq (follows : u.Follows p) (sound : u.Sound) (cycle group : Nat) :
    (Bench.executeCall u cycle p).1 =
      (u.share cycle group).bind (·.request? p u.lanes.length) := by
  unfold Bench.executeCall share
  rcases working : u.atWork cycle with _ | ex
  · rfl
  · obtain ⟨r, -, wavefront⟩ := wavefront?_of_mem sound (mem_slots_of_atWork working)
    have carried : ex.slot.Follows p := (follows.of_atWork working).1
    rcases carries : ex.slot.instruction with _ | inst
    · simp [Slot.Follows, carries] at carried
    · have kind : inst.kind = (p.instruction ex.slot.pc).kind := by
        simpa [Slot.Follows, carries] using carried
      cases more : ex.hasTurn with
      | false => simp [more, Option.filter]
      | true =>
          simp only [more, wavefront, carries, Option.filter, Option.bind_some, Option.map_some,
            if_true, Share.request?, ← kind]
          rfl

/-! ## The end of a program -/

/-- A wavefront retires behind the last instruction of its program. -/
def Finishes (u : ComputeUnit) (p : SyntheticProgram) : Prop :=
  ∀ (index : Nat) (r : Resident), u.wavefronts[index]? = some r → r.retired = true →
    r.pc = p.length

theorem Finishes.next {μ : Type} [MemoryService μ] {memory : μ} (finishes : u.Finishes p)
    (follows : u.Follows p) (sound : u.Sound) (kept : .end ∉ p.kinds) (cycle : Nat) :
    (u.next cycle (u.asked p memory cycle)).Finishes p := by
  intro index r found retired
  rw [getElem?_next, Option.map_eq_some_iff] at found
  obtain ⟨before, found, rfl⟩ := found
  by_cases isNew : ∃ new, u.issued cycle = some new ∧ new.index = index
  · obtain ⟨new, issued, rfl⟩ := isNew
    rw [nextResident_of_issued issued] at retired ⊢
    exact finishes _ before found retired
  · have unissued : ∀ new, u.issued cycle = some new → new.index ≠ index :=
      fun new issued same => isNew ⟨new, issued, same⟩
    by_cases isWritten : ∃ gone, u.taken .write = some gone ∧ gone.index = index
    · obtain ⟨gone, taken, rfl⟩ := isWritten
      obtain ⟨r, found', -, pc, -, active⟩ := sound.carried gone (mem_slots_of_taken taken)
      cases found.symm.trans found'
      have inside := follows.bounded _ before found active
      rw [nextResident_of_taken taken unissued] at retired ⊢
      simp only [active, Bool.false_or, retired_asked sound follows taken, beq_iff_eq,
        p.kind_eq_end_iff kept, pc] at retired
      simp only [pc, SyntheticProgram.length] at inside ⊢
      omega
    · have untaken : ∀ gone, u.taken .write = some gone → gone.index ≠ index :=
        fun gone taken same => isWritten ⟨gone, taken, same⟩
      rw [nextResident_of_ne unissued untaken] at retired ⊢
      exact finishes _ before found retired

/-- When a unit is drained, each of its wavefronts has had every turn of every instruction. -/
theorem Finishes.turnsTaken_eq (finishes : u.Finishes p) (sound : u.Sound)
    (drained : u.isDrained = true) {r : Resident} (found : u.wavefronts[index]? = some r) :
    u.turnsTaken index = p.length * u.turnsAt index := by
  obtain ⟨empty, retired⟩ := sound.isDrained_iff.mp drained
  have ended : r.retired = true := by
    obtain ⟨inside, rfl⟩ := Array.getElem?_eq_some_iff.mp found
    exact Array.all_eq_true.mp retired index inside
  simp only [slots, List.append_eq_nil_iff, Option.toList_eq_nil_iff, Option.map_eq_none_iff]
    at empty
  simp [turnsTaken, turnsUnderWay, pcAt, found, finishes index r found ended, empty, weight]

/-- No turn is taken on a unit that has finished. -/
theorem share_of_isDrained (drained : u.isDrained = true) : u.share cycle group = none := by
  have working : u.atWork cycle = none := by
    rcases working : u.atWork cycle with _ | ex
    · rfl
    · have member := mem_slots_of_atWork working
      rw [slots_eq_nil_of_isDrained drained] at member
      cases member
  simp [share, working, Option.filter]

/-! ## Units that may have finished before -/

section Cycled

variable {μ : Type} [MemoryService μ] {b : Bench SyntheticProgram μ} {order : StageOrder}

theorem Follows.turnsTaken_cycled (follows : b.unit.Follows p) (sound : b.unit.Sound) :
    (b.cycled order cycle group).unit.turnsTaken index = b.unit.turnsTaken index +
      weight (b.unit.share cycle group) fun s => if s.index = index then 1 else 0 := by
  unfold Bench.cycled
  split
  next drained =>
      rw [share_of_isDrained drained]
      rfl
  next =>
      rw [Bench.after_of_stateless SyntheticProgram.stateless]
      exact follows.turnsTaken_next sound cycle group index _

theorem lanes_cycled (b : Bench SyntheticProgram μ) (order : StageOrder) (cycle group : Nat) :
    (b.cycled order cycle group).unit.lanes.length = b.unit.lanes.length := by
  unfold Bench.cycled
  split
  · rfl
  · exact b.unit.nextLanes_length cycle

theorem Sound.ops_cycled (sound : b.unit.Sound) :
    (b.cycled order cycle group).unit.ops = b.unit.ops +
      ((b.unit.share cycle group).toList.flatMap (·.issues b.unit.lanes.length)).length := by
  unfold Bench.cycled
  split
  next drained =>
      rw [share_of_isDrained drained]
      rfl
  next =>
      rw [Bench.after_of_stateless SyntheticProgram.stateless]
      exact sound.sum_ops_nextLanes cycle group

theorem Finishes.cycled (finishes : b.unit.Finishes b.isa) (follows : b.unit.Follows b.isa)
    (sound : b.unit.Sound) (kept : .end ∉ b.isa.kinds) :
    (b.cycled order cycle group).unit.Finishes b.isa := by
  unfold Bench.cycled
  split
  next => exact finishes
  next =>
      rw [Bench.after_of_stateless SyntheticProgram.stateless]
      exact finishes.next follows sound kept cycle

end Cycled

/-! ## Units that are relieved -/

theorem Finishes.release (finishes : u.Finishes p) : u.release.2.Finishes p := by
  unfold ComputeUnit.release
  split
  · split
    · intro index r found
      cases found
    · exact finishes
  · exact finishes

theorem ops_release (u : ComputeUnit) : u.release.2.ops = u.ops := by
  unfold ComputeUnit.release
  split
  · split
    · exact Lane.sum_ops_idle u.lanes
    · rfl
  · rfl

end ComputeUnit

end Accelerator
