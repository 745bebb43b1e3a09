import Accelerator.Proofs.Device.Coverage
import Mathlib.Order.Interval.Finset.Nat

/-!
# Every item exactly once

The turns of a finished run tell who was given what. An item is in one turn of one wavefront, which
its number tells, and each wavefront has had each of its turns once for every instruction. So every
lane was given what it should have been given, and the words of all items were asked of memory without
a gap and without an overlap.
-/

namespace Accelerator

/-! ## Counting -/

section Counting

variable {α β : Type}

/-- What occurs once in some lists and not at all in the others occurs as often as there are such
lists. -/
theorem countP_flatMap_of_each {l : List α} {f : α → List β} {q : β → Bool} {c : α → Bool}
    (each : ∀ a ∈ l, (f a).countP q = if c a then 1 else 0) :
    (l.flatMap f).countP q = l.countP c := by
  induction l with
  | nil => rfl
  | cons a rest ih =>
      rw [List.flatMap_cons, List.countP_append, each a (List.mem_cons_self ..),
        ih fun b member => each b (List.mem_cons_of_mem _ member), List.countP_cons, Nat.add_comm]

/-- If nothing is in two of them, all pairs are disjoint. -/
theorem pairwise_of_countP_le_one {l : List α} {q : β → α → Bool}
    (once : ∀ b, l.countP (q b) ≤ 1) : l.Pairwise fun x y => ∀ b, q b x → ¬ q b y := by
  induction l with
  | nil => exact .nil
  | cons x rest ih =>
      have parts : ∀ b, rest.countP (q b) + (if q b x then 1 else 0) ≤ 1 :=
        fun b => List.countP_cons ▸ once b
      refine List.pairwise_cons.mpr ⟨fun y member b here there => ?_, ih fun b => ?_⟩
      · have positive : 0 < rest.countP (q b) := List.countP_pos_iff.mpr ⟨y, member, there⟩
        have whole := parts b
        rw [if_pos here] at whole
        omega
      · exact Nat.le_of_add_right_le (parts b)

end Counting

/-- The bytes that a request touches. -/
def MemoryRequest.range (r : MemoryRequest) : Finset Nat := Finset.Ico r.addr (r.addr + r.bytes)

/-! ## Turns -/

namespace Share

variable {s : Share} {p : SyntheticProgram} {lanes pc item byte : Nat}

/-- In the turn, the instruction at `pc` is executed for an item. -/
def covers (s : Share) (lanes pc item : Nat) : Bool :=
  s.pc == pc && decide (item ∈ s.items lanes)

theorem countP_issues (s : Share) (lanes pc item : Nat) :
    (s.issues lanes).countP (fun issue => issue.pc == some pc && issue.item == item) =
      if s.covers lanes pc item then 1 else 0 := by
  have labelled : ∀ issue ∈ s.issues lanes, issue.pc = some s.pc := by
    intro issue member
    obtain ⟨lane, -, rfl⟩ := List.mem_map.mp member
    rfl
  by_cases same : s.pc = pc
  · have given : (s.issues lanes).countP (fun issue => issue.pc == some pc && issue.item == item) =
        (s.items lanes).count item := by
      rw [← s.map_item_issues, List.count, List.countP_map]
      refine List.countP_congr fun issue member => ?_
      simp [labelled issue member, same]
    have distinct : (s.items lanes).Nodup := s.wavefront.nodup_itemsAt s.turn lanes
    rw [given, distinct.count]
    simp [covers, same]
  · have none : (s.issues lanes).countP
        (fun issue => issue.pc == some pc && issue.item == item) = 0 := by
      refine List.countP_eq_zero.mpr fun issue member => ?_
      simp [labelled issue member, same]
    simp [none, covers, same]

theorem mem_items : item ∈ s.items lanes ↔
    s.wavefront.globalId (s.wavefront.subwavefront s.turn lanes).start ≤ item ∧
      item < s.wavefront.globalId (s.wavefront.subwavefront s.turn lanes).start +
        (s.wavefront.subwavefront s.turn lanes).length := by
  simp only [items, Wavefront.itemsAt, List.mem_map, Span.toList, List.mem_range'_1,
    Wavefront.globalId]
  constructor
  · rintro ⟨i, ⟨low, high⟩, rfl⟩
    omega
  · rintro ⟨low, high⟩
    exact ⟨item - s.wavefront.base, by omega, by omega⟩

/-- An instruction that touches memory asks for the words of its items. -/
theorem request?_eq (lanes : Nat) {access : AccessKind}
    (accesses : (p.instruction s.pc).kind.access? = some access) :
    (s.request? p lanes = none ∧ s.items lanes = []) ∨
      ∃ request, s.request? p lanes = some request ∧ request.kind = access ∧
        ∀ byte, byte ∈ request.range ↔
          p.baseAddr ≤ byte ∧ (byte - p.baseAddr) / wordSize ∈ s.items lanes := by
  let span := s.wavefront.subwavefront s.turn lanes
  cases empty : span.isEmpty with
  | true =>
      have nothing : span.length = 0 := Nat.sub_eq_zero_of_le (of_decide_eq_true empty)
      refine Or.inl ⟨?_, List.map_eq_nil_iff.mpr (List.range'_eq_nil_iff.mpr nothing)⟩
      simp only [request?, Wavefront.request?, accesses]
      exact if_pos empty
  | false =>
      refine Or.inr ⟨⟨p.baseAddr + s.wavefront.globalId span.start * wordSize,
        span.length * wordSize, access⟩, ?_, rfl, fun byte => ?_⟩
      · simp only [request?, Wavefront.request?, accesses]
        exact if_neg (ne_true_of_eq_false empty)
      · rw [mem_items, MemoryRequest.range, Finset.mem_Ico]
        simp only [wordSize, span]
        omega

/-- The bytes that memory is asked for are the words of the items. -/
theorem countP_asked (s : Share) (lanes byte : Nat) (accesses : p.accesses pc = true) :
    (s.asked p lanes).countP (fun ask => ask.pc == some pc && decide (byte ∈ ask.request.range)) =
      if decide (p.baseAddr ≤ byte) && s.covers lanes pc ((byte - p.baseAddr) / wordSize) then 1
      else 0 := by
  by_cases same : s.pc = pc
  · subst same
    obtain ⟨access, kind⟩ := Option.isSome_iff_exists.mp accesses
    rcases request?_eq lanes kind with ⟨requested, empty⟩ | ⟨request, requested, -, touched⟩
    · simp [asked, requested, covers, empty]
    · simp [asked, requested, covers, touched]
  · rcases requested : s.request? p lanes with _ | request <;>
      simp [asked, requested, covers, same]

end Share

/-! ## Finished runs -/

namespace Watched

variable {μ π : Type} [Placement π] [MemoryService μ] {p : SyntheticProgram}
  {lanes wavefrontSize count size pc item : Nat} {seen : Watched SyntheticProgram μ π} {s : Share}

/-- A run is over in which a launch of `count` groups of `size` items was worked off. -/
structure Over (p : SyntheticProgram) (lanes wavefrontSize count size : Nat)
    (seen : Watched SyntheticProgram μ π) : Prop where
  covered : Covered p lanes seen
  quiet : Job.Quiet seen.job
  groupCount : seen.job.launch.groupCount = count
  listed : ∀ group ws, seen.job.launch.wavefrontsOf group = .ok ws ↔ group < count ∧
    ws = NdRange.groupWavefronts wavefrontSize size (ceilDiv size wavefrontSize) group
  sized : 0 < size
  wide : 0 < wavefrontSize
  some_lanes : 0 < lanes
  small : lanes < countBound

/-- The launch was cut into groups and wavefronts, and the device is a valid one. -/
theorem Over.intro {id : Nat} {config : DeviceConfig} {memory : μ} {placement : π}
    {device : Device SyntheticProgram μ π}
    (built : Device.build id config p memory placement = .ok device)
    (small : config.wavefrontSize < countBound) (covered : Covered p config.streamCores seen)
    (quiet : Job.Quiet seen.job) {launch number : Nat} {kernelName : String}
    {globalSize localSize : Dim3}
    (shape : seen.job.launch.SameShape
      (.cut launch number kernelName globalSize localSize wavefrontSize count size))
    (sized : 0 < size) (wide : 0 < wavefrontSize) :
    Over p config.streamCores wavefrontSize count size seen where
  covered := covered
  quiet := quiet
  groupCount := by
    rw [shape.groupCount]
    simp [NdRange.cut, NdRange.groupCount]
  listed group ws := by
    rw [shape.wavefrontsOf]
    constructor
    · intro listed
      have inside := NdRange.lt_of_wavefrontsOf_cut listed
      rw [NdRange.wavefrontsOf_cut inside] at listed
      exact ⟨inside, (Except.ok.inj listed).symm⟩
    · rintro ⟨inside, rfl⟩
      exact NdRange.wavefrontsOf_cut inside
  sized := sized
  wide := wide
  some_lanes := by
    obtain ⟨valid, -⟩ := Device.build_eq_ok built
    exact (DeviceConfig.validate_eq_ok valid).2.1
  small := by
    obtain ⟨valid, -⟩ := Device.build_eq_ok built
    exact DeviceConfig.streamCores_lt valid small

/-- Every wavefront has had all its turns. -/
theorem Over.turnsOf_eq (ended : Over p lanes wavefrontSize count size seen) {group index : Nat}
    {w : Wavefront} (inside : group < count)
    (here : (NdRange.groupWavefronts wavefrontSize size (ceilDiv size wavefrontSize)
      group)[index]? = some w) :
    ∃ unit, seen.turnsOf group index = Share.row unit group index w
      ((w.subwavefrontCount? lanes).getD 0)
      (p.length * (w.subwavefrontCount? lanes).getD 0) := by
  have bound : group < seen.job.launch.groupCount := ended.groupCount.symm ▸ inside
  obtain ⟨g, found⟩ : ∃ g, seen.job.launch.groups[group]? = some g :=
    ⟨_, Array.getElem?_eq_getElem bound⟩
  exact ended.covered.whole ended.quiet found ((ended.listed group _).mpr ⟨inside, rfl⟩) here

/-- A turn is one of a wavefront of the launch. -/
theorem Over.place (ended : Over p lanes wavefrontSize count size seen) (member : s ∈ seen.log) :
    s.group < count ∧ (NdRange.groupWavefronts wavefrontSize size (ceilDiv size wavefrontSize)
      s.group)[s.index]? = some s.wavefront := by
  obtain ⟨-, ws, listed, here⟩ := ended.covered.known s member
  obtain ⟨inside, rfl⟩ := (ended.listed s.group ws).mp listed
  exact ⟨inside, here⟩

/-- The instruction of a turn is one of the program. -/
theorem Over.pc_lt (ended : Over p lanes wavefrontSize count size seen) (member : s ∈ seen.log) :
    s.pc < p.length := by
  obtain ⟨inside, here⟩ := ended.place member
  obtain ⟨unit, turns⟩ := ended.turnsOf_eq inside here
  have listed : s ∈ seen.turnsOf s.group s.index :=
    List.mem_filter.mpr ⟨member, by simp [Share.isOf]⟩
  rw [turns] at listed
  obtain ⟨k, below, same⟩ := List.mem_map.mp listed
  rw [← same]
  exact Nat.div_lt_of_lt_mul (Nat.mul_comm p.length _ ▸ List.mem_range.mp below)

/-- An item that is executed in a turn is one of the launch. -/
theorem Over.item_lt (ended : Over p lanes wavefrontSize count size seen) (member : s ∈ seen.log)
    (given : item ∈ s.items lanes) : item < count * size := by
  obtain ⟨inside, here⟩ := ended.place member
  obtain ⟨group, -⟩ :=
    (NdRange.mem_itemsAt_iff ended.sized ended.wide ended.some_lanes ended.small here).mp given
  rw [← Nat.div_lt_iff_lt_mul ended.sized, group]
  exact inside

/-- Of the turns of a wavefront that has had them all, one is that of an item and an instruction. -/
theorem Over.countP_row (ended : Over p lanes wavefrontSize count size seen)
    (instruction : pc < p.length) {unit : Nat} {w : Wavefront}
    (here : (NdRange.groupWavefronts wavefrontSize size (ceilDiv size wavefrontSize)
      (item / size))[item % size / wavefrontSize]? = some w) :
    (Share.row unit (item / size) (item % size / wavefrontSize) w
      ((w.subwavefrontCount? lanes).getD 0)
      (p.length * (w.subwavefrontCount? lanes).getD 0)).countP (·.covers lanes pc item) = 1 := by
  have width : laneWord (max lanes 1) ≠ 0 := by
    rw [Nat.max_eq_left ended.some_lanes, laneWord, Nat.mod_eq_of_lt ended.small]
    exact Nat.ne_of_gt ended.some_lanes
  obtain ⟨turns, counted⟩ := Bench.subwavefrontCount?_of_width (w := w) width
  have bound := NdRange.turn_lt_of_item ended.sized ended.wide ended.some_lanes ended.small here counted
  have placed : ∀ k, item ∈ w.itemsAt k lanes ↔ item % size % wavefrontSize / lanes = k := by
    intro k
    rw [NdRange.mem_itemsAt_iff ended.sized ended.wide ended.some_lanes ended.small here]
    simp only [true_and]
  generalize item % size % wavefrontSize / lanes = turn at bound placed
  rw [counted, Option.getD_some, Share.row, List.countP_map]
  have last : pc * turns + turn < p.length * turns := by
    have whole : (pc + 1) * turns ≤ p.length * turns := Nat.mul_le_mul_right turns instruction
    rw [Nat.add_mul, Nat.one_mul] at whole
    omega
  have one : (List.range (p.length * turns)).count (pc * turns + turn) = 1 := by
    rw [List.nodup_range.count, if_pos (List.mem_range.mpr last)]
  rw [← one, List.count]
  refine List.countP_congr fun k _ => ?_
  -- Instruction and turn are quotient and remainder of the number of the turn.
  have number : (k / turns = pc ∧ turn = k % turns) ↔ k = pc * turns + turn := by
    rw [@eq_comm _ turn, Nat.div_mod_unique (Nat.zero_lt_of_lt bound), and_iff_left bound,
      Nat.add_comm turn, Nat.mul_comm turns, eq_comm]
  simp [Share.covers, Share.items, placed, number]

/-- For each instruction an item is in one turn. -/
theorem Over.countP_covers (ended : Over p lanes wavefrontSize count size seen)
    (instruction : pc < p.length) (inside : item < count * size) :
    seen.log.countP (·.covers lanes pc item) = 1 := by
  let group := item / size
  let index := item % size / wavefrontSize
  obtain ⟨w, here⟩ : ∃ w, (NdRange.groupWavefronts wavefrontSize size
      (ceilDiv size wavefrontSize) group)[index]? = some w := by
    refine ⟨_, List.getElem?_eq_getElem ?_⟩
    simpa [NdRange.groupWavefronts] using NdRange.wavefront_lt_of_item ended.sized ended.wide
  obtain ⟨unit, turns⟩ := ended.turnsOf_eq ((Nat.div_lt_iff_lt_mul ended.sized).mpr inside) here
  rw [← ended.countP_row instruction here, ← turns, turnsOf, List.countP_filter]
  refine List.countP_congr fun s member => ?_
  have placed : item ∈ s.items lanes → s.isOf group index = true := by
    intro given
    obtain ⟨group_eq, index_eq, -⟩ := (NdRange.mem_itemsAt_iff ended.sized ended.wide
      ended.some_lanes ended.small (ended.place member).2).mp given
    simp [Share.isOf, group, index, group_eq, index_eq]
  simp only [Share.covers, Bool.and_eq_true, beq_iff_eq, decide_eq_true_eq]
  exact ⟨fun both => ⟨both, placed both.2⟩, And.left⟩

/-! ## What lanes are given -/

theorem Over.countP_issues (ended : Over p lanes wavefrontSize count size seen)
    (instruction : pc < p.length) (inside : item < count * size) :
    seen.issues.countP (fun issue => issue.pc == some pc && issue.item == item) = 1 := by
  rw [ended.covered.issues, countP_flatMap_of_each fun s _ => s.countP_issues lanes pc item]
  exact ended.countP_covers instruction inside

/-- What a lane is given is an item of the launch, for an instruction of the program. -/
theorem Over.of_mem_issues (ended : Over p lanes wavefrontSize count size seen) {issue : Issue}
    (member : issue ∈ seen.issues) :
    (∃ pc < p.length, issue.pc = some pc) ∧ issue.item < count * size ∧
      ∃ (u : ComputeUnit) (lane : Lane), seen.job.device.cluster.units[issue.unit]? = some u ∧
        u.lanes[issue.lane]? = some lane := by
  rw [ended.covered.issues] at member
  obtain ⟨s, taken, given⟩ := List.mem_flatMap.mp member
  have item : issue.item ∈ s.items lanes := by
    rw [← s.map_item_issues]
    exact List.mem_map_of_mem given
  obtain ⟨u, resident⟩ := ended.covered.units s taken
  have width := (ended.covered.follows.units s.unit u resident).2
  obtain ⟨lane, inside, rfl⟩ := List.mem_map.mp given
  have inRow : lane < u.lanes.length :=
    width ▸ (List.mem_range.mp inside).trans_le (s.wavefront.length_subwavefront_le s.turn lanes)
  exact ⟨⟨s.pc, ended.pc_lt taken, rfl⟩, ended.item_lt taken item, u, _, resident,
    List.getElem?_eq_getElem inRow⟩

/-- As many items are given to lanes as there are pairs of an instruction and an item. -/
theorem Over.length_issues (ended : Over p lanes wavefrontSize count size seen) :
    seen.issues.length = count * size * p.length := by
  let keys := seen.issues.map fun issue => (issue.pc, issue.item)
  let pairs := (List.range p.length).map some ×ˢ List.range (count * size)
  have members : ∀ key, key ∈ keys ↔ key ∈ pairs := by
    rintro ⟨at_pc, item⟩
    simp only [keys, pairs, List.mem_map, List.mem_product, List.mem_range, Prod.mk.injEq]
    constructor
    · rintro ⟨issue, member, rfl, rfl⟩
      obtain ⟨⟨pc, inside, same⟩, below, -⟩ := ended.of_mem_issues member
      exact ⟨⟨pc, inside, same.symm⟩, below⟩
    · rintro ⟨⟨pc, inside, rfl⟩, below⟩
      have once := ended.countP_issues inside below
      obtain ⟨issue, member, same⟩ := List.countP_pos_iff.mp (once ▸ Nat.one_pos)
      simp only [Bool.and_eq_true, beq_iff_eq] at same
      exact ⟨issue, member, same⟩
  have distinct : keys.Nodup := by
    refine List.nodup_iff_count_le_one.mpr fun key => ?_
    by_cases member : key ∈ keys
    · obtain ⟨issue, given, rfl⟩ := List.mem_map.mp member
      obtain ⟨⟨pc, inside, same⟩, below, -⟩ := ended.of_mem_issues given
      rw [List.count, List.countP_map, ← ended.countP_issues inside below]
      refine List.countP_mono_left fun other _ equal => ?_
      simpa [same] using equal
    · exact (List.count_eq_zero_of_not_mem member).trans_le (Nat.zero_le 1)
  have distinct' : pairs.Nodup :=
    ((List.nodup_range).map (Option.some_injective _)).product List.nodup_range
  have perm := (List.perm_ext_iff_of_nodup distinct distinct').mpr members
  have lengths := perm.length_eq
  simpa [keys, pairs, List.length_product, Nat.mul_comm] using lengths

/-! ## What memory is asked for -/

/-- Memory is asked by instructions that touch it, and for what they do. -/
theorem Over.of_mem_asked (ended : Over p lanes wavefrontSize count size seen) {ask : Asked}
    (member : ask ∈ seen.asked) : ∃ pc < p.length, ask.pc = some pc ∧
      (p.instruction pc).kind.access? = some ask.request.kind := by
  rw [ended.covered.asked] at member
  obtain ⟨s, taken, here⟩ := List.mem_flatMap.mp member
  obtain ⟨request, requested, rfl⟩ := List.mem_map.mp here
  rw [Option.mem_toList] at requested
  refine ⟨s.pc, ended.pc_lt taken, rfl, ?_⟩
  rcases accesses : (p.instruction s.pc).kind.access? with _ | access
  · simp [Share.request?, Wavefront.request?, accesses] at requested
  · rcases Share.request?_eq lanes accesses with ⟨nothing, -⟩ | ⟨request', same, kind, -⟩
    · cases nothing.symm.trans requested
    · cases same.symm.trans requested
      rw [kind]

/-- A byte is asked for once by each instruction that touches memory if it belongs to the word of an
item, and not at all otherwise. -/
theorem Over.countP_asked (ended : Over p lanes wavefrontSize count size seen)
    (instruction : pc < p.length) (accesses : p.accesses pc = true) (byte : Nat) :
    seen.asked.countP (fun ask => ask.pc == some pc && decide (byte ∈ ask.request.range)) =
      if byte ∈ Finset.Ico p.baseAddr (p.baseAddr + wordSize * (count * size)) then 1 else 0 := by
  rw [ended.covered.asked, countP_flatMap_of_each fun s _ => s.countP_asked lanes byte accesses]
  have word : byte ∈ Finset.Ico p.baseAddr (p.baseAddr + wordSize * (count * size)) ↔
      p.baseAddr ≤ byte ∧ (byte - p.baseAddr) / wordSize < count * size := by
    rw [Finset.mem_Ico]
    simp only [wordSize]
    omega
  by_cases inside : byte ∈ Finset.Ico p.baseAddr (p.baseAddr + wordSize * (count * size))
  · obtain ⟨low, below⟩ := word.mp inside
    rw [if_pos inside, decide_eq_true low]
    exact ended.countP_covers instruction below
  · rw [if_neg inside]
    refine List.countP_eq_zero.mpr fun s member given => inside (word.mpr ?_)
    simp only [Share.covers, Bool.and_eq_true, decide_eq_true_eq] at given
    exact ⟨given.1, ended.item_lt member given.2.2⟩

/-- The requests of an instruction that touches memory cover the words of all items, without
overlaps. -/
theorem Over.requests (ended : Over p lanes wavefrontSize count size seen)
    (instruction : pc < p.length) (accesses : p.accesses pc = true) :
    let requests := (seen.asked.filter (·.pc == some pc)).map (·.request)
    requests.Pairwise (fun r r' => Disjoint r.range r'.range) ∧
      ∀ byte, (∃ r ∈ requests, byte ∈ r.range) ↔
        byte ∈ Finset.Ico p.baseAddr (p.baseAddr + wordSize * (count * size)) := by
  intro requests
  have once : ∀ byte, requests.countP (fun r => decide (byte ∈ r.range)) =
      if byte ∈ Finset.Ico p.baseAddr (p.baseAddr + wordSize * (count * size)) then 1 else 0 := by
    intro byte
    rw [← ended.countP_asked instruction accesses byte, List.countP_map, List.countP_filter]
    simp [Bool.and_comm]
  constructor
  · have apart := pairwise_of_countP_le_one
      (q := fun byte (r : MemoryRequest) => decide (byte ∈ r.range)) fun byte => by
        rw [once]
        split <;> decide
    exact apart.imp fun differ => Finset.disjoint_left.mpr fun byte here there =>
      differ byte (decide_eq_true here) (decide_eq_true there)
  · intro byte
    have some_request : (∃ r ∈ requests, byte ∈ r.range) ↔
        0 < requests.countP fun r => decide (byte ∈ r.range) := by
      rw [List.countP_pos_iff]
      simp only [decide_eq_true_eq]
    rw [some_request, once]
    split <;> simp [*]

end Watched

/-! ## Every run -/

namespace Job

variable {μ π : Type} [Placement π] [MemoryService μ]

omit [Placement π] [MemoryService μ] in
/-- What holds whenever a run completes holds of one that does. -/
theorem exists_of_isCompleted {done : Except Error Outcome × Job SyntheticProgram μ π}
    (ended : done.1.toOption.any (·.isCompleted) = true)
    {P : RunStats → Job SyntheticProgram μ π → Prop}
    (each : ∀ stats after, done = (.ok (.completed stats), after) → P stats after) :
    ∃ stats after, done = (.ok (.completed stats), after) ∧ P stats after := by
  obtain ⟨e | stats | stats, after⟩ := done
  · cases ended
  · exact ⟨stats, after, rfl, each stats after rfl⟩
  · cases ended

/-- Watching a run, whether it was interrupted before or not, until it completes on a new device and
a new launch: for each instruction of the program, its end included, and each item one lane of one
unit is given the item, once; nothing else is given to any lane; and the counters of all lanes add up
to the number of such pairs. An instruction that touches memory asks for pieces that do not overlap
and that make up the words of all items, and other instructions ask for nothing. -/
theorem items_executed_once {id : Nat} {config : DeviceConfig} {kinds : List InstKind}
    {baseAddr : Nat} {memory : μ} {placement : π} {device : Device SyntheticProgram μ π}
    (built : Device.build id config (.ofKinds kinds baseAddr) memory placement = .ok device)
    (small : config.wavefrontSize < countBound) (reliable : Placement.Reliable placement)
    {launch number : Nat} {kernelName : String} {globalSize localSize : Dim3}
    {wavefrontSize : Nat} {nd : NdRange}
    (made : NdRange.create launch number kernelName globalSize localSize wavefrontSize = .ok nd)
    (order : StageOrder) (sink : Sink) (history : List (Option Nat)) {budget : Option Nat}
    {stats : RunStats} {after : Job SyntheticProgram μ π}
    (completed : (runWithin budget).outcome ((Job.fresh device order sink nd).afterRuns history) =
      (.ok (.completed stats), after)) :
    let p := SyntheticProgram.ofKinds kinds baseAddr
    let start : Watched SyntheticProgram μ π :=
      { job := Job.fresh device order sink nd, notes := [] }
    let seen : Watched SyntheticProgram μ π :=
      start.afterRuns Watched.advance (history ++ [budget])
    seen.job = after ∧
    (∀ pc < p.length, ∀ item < nd.itemCount, ∃ issue,
      seen.issues.filter (fun issue => issue.pc == some pc && issue.item == item) = [issue]) ∧
    (∀ issue ∈ seen.issues, (∃ pc < p.length, issue.pc = some pc) ∧ issue.item < nd.itemCount ∧
      ∃ (u : ComputeUnit) (lane : Lane), after.device.cluster.units[issue.unit]? = some u ∧
        u.lanes[issue.lane]? = some lane) ∧
    (after.device.units.map fun u => (u.lanes.map (·.ops)).sum).sum = nd.itemCount * p.length ∧
    (∀ ask ∈ seen.asked, ∃ pc < p.length, ask.pc = some pc ∧
      (p.instruction pc).kind.access? = some ask.request.kind) ∧
    ∀ pc < p.length, p.accesses pc = true →
      let requests := (seen.asked.filter (·.pc == some pc)).map (·.request)
      requests.Pairwise (fun r r' => Disjoint r.range r'.range) ∧
      ∀ byte, (∃ r ∈ requests, byte ∈ r.range) ↔
        byte ∈ Finset.Ico baseAddr (baseAddr + wordSize * nd.itemCount) := by
  intro p start seen
  have kept : .end ∉ p.kinds := SyntheticProgram.end_notMem_ofKinds kinds baseAddr
  have job : seen.job = after := by
    rw [Noted.job_afterRuns Watched.matches_advance, afterRuns, List.foldl_append, List.foldl_cons,
      List.foldl_nil, ← afterRuns, completed]
  have resumable := (Resumable.fresh built small reliable made order sink).afterRuns history
  obtain ⟨covered, shape⟩ : Watched.Covered p config.streamCores seen ∧
      seen.job.launch.SameShape nd :=
    Noted.keeps_afterRuns (fun budget => Watched.keeps_covered_runWithin kept nd budget)
      ⟨.fresh built small reliable made order sink, .refl nd⟩ _
  obtain ⟨count, size, wide, -, sized, items, rfl⟩ := NdRange.itemCount_of_create made
  have ended : Watched.Over p config.streamCores wavefrontSize count size seen :=
    .intro built small covered (job ▸ resumable.owned.quiet_of_runWithin completed (.inr rfl))
      shape sized wide
  rw [items]
  refine ⟨job, fun pc inside item below => ?_, fun issue member => job ▸ ended.of_mem_issues member,
    ?_, fun ask member => ended.of_mem_asked member, fun pc inside accesses =>
      ended.requests inside accesses⟩
  · have once := ended.countP_issues inside below
    rw [List.countP_eq_length_filter] at once
    exact List.length_eq_one_iff.mp once
  · rw [← ended.length_issues, ← covered.counted, ← job]
    rfl

/-- On a device of two units, in a run that was interrupted after five cycles: three instructions
make 72 pairs with 24 items, the last item is given to one lane when its wavefront ends, and the load
asks for 96 bytes. -/
theorem items_executed_once_on_two_units :
    ∃ (device : Device SyntheticProgram FixedLatency Placer) (nd : NdRange),
      Device.build 0 { computeUnits := 2, streamCores := 2, wavefrontSize := 4 }
        (.ofKinds [.load, .alu] 256) { latency := 3 } PlacementPolicy.roundRobin.build =
          .ok device ∧
      NdRange.create 1 0 "kernel" ⟨24, 1, 1⟩ ⟨8, 1, 1⟩ 4 = .ok nd ∧
      let start : Watched SyntheticProgram FixedLatency Placer :=
        { job := Job.fresh device .reverse .discard nd, notes := [] }
      let seen : Watched SyntheticProgram FixedLatency Placer :=
        start.afterRuns Watched.advance [some 5, none]
      ∃ stats after, (runWithin none).outcome
          ((Job.fresh device .reverse .discard nd).afterRuns [some 5]) =
            (.ok (.completed stats), after) ∧
        seen.job = after ∧
        (∃ issue, seen.issues.filter (fun issue => issue.pc == some 2 && issue.item == 23) =
          [issue]) ∧
        (after.device.units.map fun u => (u.lanes.map (·.ops)).sum).sum = 72 ∧
        ∀ byte, (∃ r ∈ (seen.asked.filter (·.pc == some 0)).map (·.request), byte ∈ r.range) ↔
          byte ∈ Finset.Ico 256 352 := by
  have built : Device.build 0 { computeUnits := 2, streamCores := 2, wavefrontSize := 4 }
      (SyntheticProgram.ofKinds [.load, .alu] 256) ({ latency := 3 } : FixedLatency)
      PlacementPolicy.roundRobin.build = .ok _ := rfl
  have made : NdRange.create 1 0 "kernel" ⟨24, 1, 1⟩ ⟨8, 1, 1⟩ 4 = .ok _ := rfl
  refine ⟨_, _, built, made, exists_of_isCompleted (by decide +kernel) fun stats after completed => ?_⟩
  obtain ⟨same, given, -, ops, -, asked⟩ :=
    items_executed_once built (by decide) (PlacementPolicy.reliable_build _) made .reverse .discard
      [some 5] completed
  exact ⟨same, given 2 (by decide) 23 (by decide), ops, (asked 0 (by decide) rfl).2⟩

end Job

end Accelerator
