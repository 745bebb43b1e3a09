import Accelerator.Proofs.Device.Completion
import Accelerator.Proofs.Device.ExactlyOnce
import Accelerator.Proofs.Device.WordBounds
import Accelerator.Proofs.Device.Words

/-!
# Launches that words can hold

Which launches a device can run in words. The turns of a run are those of its launch, and so are their
sums: where the last turn of a group ends, and how many bytes the first one touches, decide whether the
run is what it is with sums of any size or ends in a fault (`Job.words_hold_turns_iff`).

What memory adds is not of this kind. Addresses and cycles grow with where a buffer is and with how long
a run takes, and they have all the bits of a word.
-/

namespace Accelerator

/-! ## The sums of a turn -/

/-- Words hold the sums of a turn, those that memory takes aside. -/
def Share.holds (s : Share) (p : SyntheticProgram) (lanes : Nat) : Bool :=
  let items := s.wavefront.subwavefront s.turn lanes
  (@Wavefront.subwavefront? .words s.wavefront s.turn lanes).isSome && s.wavefront.holdsIds items &&
    s.wavefront.holdsRequest p.baseAddr (p.instruction s.pc).kind items

namespace Visit

variable {μ : Type} [MemoryService μ] {v : Visit SyntheticProgram μ} {p : SyntheticProgram}
  {lanes : Nat}

/-- Words hold the addresses that memory is asked for in a visit, and the cycles in which it answers. -/
def InReach (v : Visit SyntheticProgram μ) : Prop :=
  ∀ ask ∈ v.asked, ask.request.addr < wordBound ∧
    MemoryService.holdsAccess v.memory ask.request v.cycle = true

instance : Decidable v.InReach :=
  inferInstanceAs (Decidable (∀ ask ∈ v.asked, ask.request.addr < wordBound ∧
    MemoryService.holdsAccess v.memory ask.request v.cycle = true))

/-- The sums of a visit are those of its turn. -/
theorem Regular.holds_iff (regular : v.Regular p lanes) :
    v.holds = true ↔ ∀ s, v.share? = some s → s.holds p lanes = true ∧
      ∀ request, s.request? p lanes = some request →
        MemoryService.holdsAccess v.memory request v.cycle = true := by
  obtain ⟨rfl, sound, follows, rfl, group, held⟩ := regular
  rw [holds, Bench.isaBefore_of_stateless SyntheticProgram.stateless, share?, held,
    Option.bind_some, ComputeUnit.share, Bench.holdsCycle]
  rcases working : v.unit.atWork v.cycle with _ | ex
  · simp
  · obtain ⟨inst, carries, kind⟩ := Option.map_eq_some_iff.mp (follows.of_atWork working).1
    cases more : ex.hasTurn with
    | false => simp [Option.filter, more]
    | true =>
        rcases found : v.unit.wavefront? ex.slot with _ | w
        · simp [Option.filter, more, found]
        · simp [Option.filter, more, found, Bench.holdsTurn, Share.holds, Share.request?, carries,
            InstructionModel.holdsExecute, InstructionModel.execute, kind, and_assoc,
            Option.all_eq_true]

theorem Regular.inReach_iff (regular : v.Regular p lanes) :
    v.InReach ↔ ∀ s, v.share? = some s → ∀ request, s.request? p lanes = some request →
      request.addr < wordBound ∧ MemoryService.holdsAccess v.memory request v.cycle = true := by
  obtain ⟨rfl, sound, follows, rfl, group, held⟩ := regular
  rw [InReach, v.asked_eq sound follows held]
  rcases taken : v.share? with _ | s
  · simp
  · rcases requested : s.request? v.isa v.unit.lanes.length with _ | request <;>
      simp [Share.asked, requested]

end Visit

/-- Words hold the sums of a turn of a launch if they hold where it ends, and how many bytes it touches
and from which address on. -/
theorem NdRange.TurnsInWords.holds_iff {nd : NdRange} {lanes : Nat} (words : nd.TurnsInWords lanes)
    {s : Share} (takes : nd.TakesTurn lanes s.wavefront s.turn) {p : SyntheticProgram} :
    s.holds p lanes = true ↔ (s.wavefront.subwavefront s.turn lanes).start + lanes < countBound ∧
      ∀ request, s.request? p lanes = some request →
        request.bytes < countBound ∧ request.addr < wordBound := by
  obtain ⟨filled, bounds⟩ := words.turns s.wavefront s.turn takes
  have inside := Nat.not_le.mp (of_decide_eq_false filled)
  have number : ∀ i, (s.wavefront.subwavefront s.turn lanes).start ≤ i →
      i < (s.wavefront.subwavefront s.turn lanes).stop → s.wavefront.globalId i < countBound := by
    intro i low high
    refine words.items s.wavefront s.turn takes _ (List.mem_map_of_mem ?_)
    simp only [Span.toList, Span.length, List.mem_range'_1]
    omega
  have first := number _ (Nat.le_refl _) inside
  have last := number ((s.wavefront.subwavefront s.turn lanes).stop - 1) (by omega) (by omega)
  have ids : s.wavefront.holdsIds (s.wavefront.subwavefront s.turn lanes) = true := by
    simp [Wavefront.holdsIds, last]
  by_cases ends : (s.wavefront.subwavefront s.turn lanes).start + lanes < countBound
  · simp [Share.holds, bounds, ends, ids, Wavefront.holdsRequest, Share.request?, first,
      Option.all_eq_true]
  · simp [Share.holds, bounds, ends]

/-- Words hold where the last turn of a group ends, and how many bytes the first one touches, if it
touches any. -/
def NdRange.SumsInWords (nd : NdRange) (p : SyntheticProgram) (lanes : Nat) : Prop :=
  ceilDiv nd.groupSize lanes * lanes < countBound ∧
    ((∃ pc, p.accesses pc = true) → min lanes nd.groupSize * wordSize < countBound)

/-- Past its end a program touches nothing. -/
theorem SyntheticProgram.lt_length_of_accesses {p : SyntheticProgram} {pc : Nat}
    (accesses : p.accesses pc = true) : pc < p.length := by
  refine Nat.lt_of_not_le fun outside => ?_
  have past : (p.instruction pc).kind = .end :=
    List.getD_eq_default _ _ (Nat.le_of_succ_le outside)
  simp [SyntheticProgram.accesses, past, InstKind.access?] at accesses

/-! ## The sums of a run -/

namespace Watched

variable {μ π : Type} [Placement π] [MemoryService μ] {p : SyntheticProgram} {lanes : Nat}
  {seen : Watched SyntheticProgram μ π} {nd : NdRange}

/-- A turn that is taken is one of the launch. -/
theorem Covered.takesTurn (covered : Covered p lanes seen) (shape : seen.job.launch.SameShape nd)
    {s : Share} (member : s ∈ seen.log) : nd.TakesTurn lanes s.wavefront s.turn := by
  obtain ⟨below, ws, listed, here⟩ := covered.known s member
  refine ⟨?_, ?_⟩
  · rw [shape.wavefrontsOf] at listed
    exact NdRange.mem_wavefronts_of_wavefrontsOf listed (List.mem_of_getElem? here)
  · rcases counted : s.wavefront.subwavefrontCount? lanes with _ | turns
    · rw [counted] at below
      exact absurd below (Nat.not_lt_zero _)
    · rw [counted] at below
      exact ⟨turns, rfl, below⟩

/-- Words hold the sums of a run if they hold the largest ones of its launch, and what memory adds. -/
theorem Covered.held (covered : Covered p lanes seen) (shape : seen.job.launch.SameShape nd)
    (words : nd.TurnsInWords lanes) (fits : nd.SumsInWords p lanes)
    (near : ∀ v ∈ seen.notes, v.InReach) : Held seen := by
  intro v member
  have regular := covered.visits v member
  refine regular.holds_iff.mpr fun s taken => ?_
  have takes : nd.TakesTurn lanes s.wavefront s.turn :=
    covered.takesTurn shape (List.mem_filterMap.mpr ⟨v, member, taken⟩)
  have reached := regular.inReach_iff.mp (near v member) s taken
  refine ⟨(words.holds_iff takes).mpr ⟨words.ends.mpr fits.1 _ _ takes, fun request asked => ?_⟩,
    fun request asked => (reached request asked).2⟩
  have accesses : p.accesses s.pc = true := by
    rcases touches : (p.instruction s.pc).kind.access? with _ | access
    · simp [Share.request?, Wavefront.request?, touches] at asked
    · simp [SyntheticProgram.accesses, touches]
  exact ⟨words.bytes.mpr (fits.2 ⟨s.pc, accesses⟩) _ _ takes _ _ request asked,
    (reached request asked).1⟩

variable {launch number wavefrontSize count size : Nat} {kernelName : String}
  {globalSize localSize : Dim3}

/-- When a run is over every turn of the launch has been taken for every instruction. -/
theorem Over.exists_share (ended : Over p lanes wavefrontSize count size seen) {w : Wavefront}
    {turn pc : Nat} (takes : (NdRange.cut launch number kernelName globalSize localSize
      wavefrontSize count size).TakesTurn lanes w turn) (instruction : pc < p.length) :
    ∃ s ∈ seen.log, s.wavefront = w ∧ s.turn = turn ∧ s.pc = pc := by
  obtain ⟨turns, counted, below⟩ := takes.2
  obtain ⟨group, index, inside, listed, rfl, -⟩ :=
    (NdRange.takesTurn_cut_iff ended.wide ended.some_lanes ended.small).mp takes
  have here : (NdRange.groupWavefronts wavefrontSize size (ceilDiv size wavefrontSize) group)[index]? =
      some (NdRange.wavefrontAt wavefrontSize size group index) := by
    rw [NdRange.groupWavefronts_eq, List.getElem?_map, List.getElem?_range listed, Option.map_some]
  obtain ⟨unit, row⟩ := ended.turnsOf_eq inside here
  rw [counted, Option.getD_some] at row
  have last : pc * turns + turn < p.length * turns := by
    have whole : (pc + 1) * turns ≤ p.length * turns := Nat.mul_le_mul_right turns instruction
    rw [Nat.succ_mul] at whole
    omega
  obtain ⟨quotient, remainder⟩ : (pc * turns + turn) / turns = pc ∧
      (pc * turns + turn) % turns = pc * turns + turn - pc * turns :=
    NdRange.div_mod_of_between (Nat.le_add_right ..) (Nat.add_lt_add_left below _)
  rw [Nat.add_sub_cancel_left] at remainder
  let s : Share :=
    { unit, group, index, pc, turn, wavefront := NdRange.wavefrontAt wavefrontSize size group index }
  have member : s ∈ seen.turnsOf group index := by
    rw [row, Share.row]
    refine List.mem_map.mpr ⟨pc * turns + turn, List.mem_range.mpr last, ?_⟩
    rw [quotient, remainder]
  exact ⟨s, List.mem_of_mem_filter member, rfl, rfl, rfl⟩

/-- A run that is over, of a launch with sums that words do not hold, had turns with such sums. -/
theorem Over.not_held (ended : Over p lanes wavefrontSize count size seen)
    (words : (NdRange.cut launch number kernelName globalSize localSize wavefrontSize count
      size).TurnsInWords lanes)
    (exceeds : ¬ (NdRange.cut launch number kernelName globalSize localSize wavefrontSize count
      size).SumsInWords p lanes) : ¬ Held seen := by
  intro held
  have each : ∀ s ∈ seen.log, s.holds p lanes = true := by
    intro s member
    obtain ⟨v, noted, taken⟩ := List.mem_filterMap.mp member
    exact ((ended.covered.visits v noted).holds_iff.mp (held v noted) s taken).1
  refine exceeds ⟨words.ends.mp fun w turn takes => ?_, fun touches => words.bytes.mp ?_⟩
  · obtain ⟨s, member, rfl, rfl, -⟩ := ended.exists_share takes (Nat.succ_pos p.kinds.length)
    exact ((words.holds_iff takes).mp (each s member)).1
  · obtain ⟨pc, accesses⟩ := touches
    obtain ⟨access, kind⟩ := Option.isSome_iff_exists.mp accesses
    intro w turn takes
    obtain ⟨s, member, rfl, rfl, rfl⟩ :=
      ended.exists_share takes (SyntheticProgram.lt_length_of_accesses accesses)
    have filled := (words.turns _ _ takes).1
    have asked : s.request? p lanes = some {
        addr := p.baseAddr + s.wavefront.globalId
          (s.wavefront.subwavefront s.turn lanes).start * wordSize
        bytes := (s.wavefront.subwavefront s.turn lanes).length * wordSize
        kind := access } := by
      simp [Share.request?, Wavefront.request?, kind, filled]
    exact (Wavefront.forall_bytes_lt_iff filled).mpr
      (((words.holds_iff takes).mp (each s member)).2 _ asked).1

end Watched

/-! ## Every run -/

namespace Job

variable {μ π : Type} [MemoryService μ] [Placement π] {id : Nat} {config : DeviceConfig}
  {kinds : List InstKind} {baseAddr : Nat} {memory : μ} {placement : π}
  {device : Device SyntheticProgram μ π}
  (built : Device.build id config (.ofKinds kinds baseAddr) memory placement = .ok device)
  (small : config.wavefrontSize < countBound) (reliable : Placement.Reliable placement)
  {launch number : Nat} {kernelName : String} {globalSize localSize : Dim3} {wavefrontSize : Nat}
  {nd : NdRange}
  (made : NdRange.create launch number kernelName globalSize localSize wavefrontSize = .ok nd)
  (words : nd.TurnsInWords config.streamCores) (order : StageOrder) (sink : Sink)
include built small reliable made words

/-- If words hold the sums of a launch every run is what it is with sums of any size. -/
theorem runWithin_words (fits : nd.SumsInWords (.ofKinds kinds baseAddr) config.streamCores)
    (budget : Option Nat) (near : ∀ v ∈ ((Noted.runWithin Watched.advance budget).outcome
      { job := Job.fresh device order sink nd, notes := [] }).2.notes, Visit.InReach v) :
    (letI _ := Sums.words; (runWithin budget).outcome (Job.fresh device order sink nd)) =
      (runWithin budget).outcome (Job.fresh device order sink nd) := by
  let start : Watched SyntheticProgram μ π :=
    { job := Job.fresh device order sink nd, notes := [] }
  have kept : .end ∉ (SyntheticProgram.ofKinds kinds baseAddr).kinds :=
    SyntheticProgram.end_notMem_ofKinds kinds baseAddr
  have fresh : Watched.Covered _ config.streamCores start :=
    .fresh built small reliable made order sink
  obtain ⟨covered, shape⟩ := Watched.keeps_covered_runWithin kept nd budget start ⟨fresh, .refl nd⟩
  obtain ⟨answer, job⟩ :=
    Noted.matches_runWithin Watched.matches_advance budget start.job start rfl
  rw [(Watched.InWords.runWithin budget fresh.follows.owned).same
    (covered.held shape words fits near)]
  exact Prod.ext answer.eq.symm job

/-- Otherwise a run that would be over after some cycles is a fault. -/
theorem exists_fault (admitted : (begin.outcome (Job.fresh device order sink nd)).1 = .ok ())
    (exceeds : ¬ nd.SumsInWords (.ofKinds kinds baseAddr) config.streamCores) :
    ∃ cycles stats, ∀ room, cycles ≤ room →
      ((do begin; drive room none : Attempt (Job SyntheticProgram μ π) Outcome).outcome
        (Job.fresh device order sink nd)).1 = .ok (.completed stats) ∧
      (letI _ := Sums.words;
        (do begin; drive room none : Attempt (Job SyntheticProgram μ π) Outcome).outcome
          (Job.fresh device order sink nd)).1 = .error (.fault .sumOverflow) := by
  have kept : .end ∉ (SyntheticProgram.ofKinds kinds baseAddr).kinds :=
    SyntheticProgram.end_notMem_ofKinds kinds baseAddr
  have begins := begin_fresh built order sink admitted
  let start : Watched SyntheticProgram μ π :=
    { job := (Job.fresh device order sink nd).admitted, notes := [] }
  have fresh : Watched.Covered _ config.streamCores start :=
    (Watched.Covered.fresh built small reliable made order sink).withDevice _ _ _
  obtain ⟨final, cycles, ends⟩ := fresh.follows.ends kept
  refine ⟨cycles, final.device.stats, fun room enough => ?_⟩
  have done := (ends.outcomes begins).1 room enough
  refine ⟨congrArg Prod.fst done, ?_⟩
  rw [Attempt.outcome_bind_of_ok begins] at done ⊢
  let seen := ((Noted.drive Watched.advance room none).outcome start).2
  obtain ⟨covered, shape⟩ :=
    Watched.keeps_covered_drive kept nd room none start ⟨fresh, .refl nd⟩
  obtain ⟨-, job⟩ :=
    Noted.matches_drive Watched.matches_advance room none start.job start rfl
  have quiet : Quiet seen.job := by
    rw [show seen.job = final.finished by rw [job, done]]
    exact fresh.follows.owned.quiet_of_drive done (.inl rfl)
  obtain ⟨count, size, wide, -, sized, -, rfl⟩ := NdRange.itemCount_of_create made
  have ended : Watched.Over _ config.streamCores wavefrontSize count size seen :=
    .intro built small covered quiet shape sized wide
  exact (Watched.InWords.drive room none fresh.follows.owned).faults
    (fun v member => absurd member List.not_mem_nil) (ended.not_held words exceeds)

end Job

/-- Words hold where a turn of an accepted launch begins, and the numbers of its items. Whether they
hold where all the turns end, before that is cut off, and how many bytes their items touch, depends
on the lanes and on the size of a group. If they do, a new device runs the launch in words as it does
with sums of any size, as long as words hold what memory adds, too. If they do not, a run that would be
over after some cycles ends in a fault. -/
theorem Job.words_hold_turns_iff {ι μ π : Type} [MemoryService μ] [Placement π]
    {device : Device ι μ π} (valid : device.config.validate = .ok ())
    (small : device.config.wavefrontSize < countBound) (free : device.active = none)
    {launch number : Nat} {kernelName : String} {globalSize localSize : Dim3} {wavefrontSize : Nat}
    {nd : NdRange}
    (made : NdRange.create launch number kernelName globalSize localSize wavefrontSize = .ok nd)
    (admitted : (begin.outcome (⟨device, nd⟩ : Job ι μ π)).1 = .ok ()) :
    nd.TurnsInWords device.config.streamCores ∧
    ∀ (id : Nat) (kinds : List InstKind) (baseAddr : Nat) (memory : μ) (placement : π)
      (new : Device SyntheticProgram μ π) (order : StageOrder) (sink : Sink),
      Placement.Reliable placement →
      Device.build id device.config (.ofKinds kinds baseAddr) memory placement = .ok new →
      let job := Job.fresh new order sink nd
      (nd.SumsInWords (.ofKinds kinds baseAddr) device.config.streamCores → ∀ budget,
        (∀ v ∈ ((Noted.runWithin Watched.advance budget).outcome { job, notes := [] }).2.notes,
          Visit.InReach v) →
        (letI _ := Sums.words; (runWithin budget).outcome job) = (runWithin budget).outcome job) ∧
      (¬ nd.SumsInWords (.ofKinds kinds baseAddr) device.config.streamCores →
        ∃ cycles stats, ∀ room, cycles ≤ room →
          ((do begin; drive room none : Attempt (Job SyntheticProgram μ π) Outcome).outcome
            job).1 = .ok (.completed stats) ∧
          (letI _ := Sums.words;
            (do begin; drive room none : Attempt (Job SyntheticProgram μ π) Outcome).outcome
              job).1 = .error (.fault .sumOverflow)) := by
  have words := turnsInWords valid small free made admitted
  refine ⟨words, fun id kinds baseAddr memory placement new order sink reliable built => ?_⟩
  have admitted' : (begin.outcome (Job.fresh new order sink nd)).1 = .ok () := by
    have fits := fits_of_begin free admitted
    have begins : begin.outcome (Job.fresh new order sink nd) =
        (.ok (), (Job.fresh new order sink nd).admitted) := by
      obtain ⟨-, rfl⟩ := Device.build_eq_ok built
      exact begin_of_fits rfl fits
    exact congrArg Prod.fst begins
  exact ⟨runWithin_words built small reliable made words order sink,
    exists_fault built small reliable made words order sink admitted'⟩

/-- A device that takes the largest group there is, in wavefronts of almost as many items. -/
def DeviceConfig.widest : DeviceConfig where
  computeUnits := 1
  wavefrontSize := 4294967280
  maxGroupSize := 4294967295

/-- The largest group there is has two wavefronts on such a device. The last one has a turn that ends
where words end. -/
theorem DeviceConfig.widest_launch :
    ∃ (device : Device SyntheticProgram FixedLatency Placer) (nd : NdRange) (w : Wavefront),
      Device.build 0 .widest (.ofKinds [.load] 256) { latency := 3 }
        PlacementPolicy.roundRobin.build = .ok device ∧
      device.config = .widest ∧ device.active = none ∧
      NdRange.create 1 0 "kernel" ⟨4294967295, 1, 1⟩ ⟨4294967295, 1, 1⟩ 4294967280 = .ok nd ∧
      nd.groupSize = 4294967295 ∧
      (Job.begin.outcome (⟨device, nd⟩ : Job _ _ _)).1 = .ok () ∧
      (Job.begin.outcome (Job.fresh device .reverse .discard nd)).1 = .ok () ∧
      nd.TakesTurn 16 w 0 ∧ (w.subwavefront 0 16).start + 16 = countBound ∧
      @Wavefront.subwavefront? .words w 0 16 = none := by
  refine ⟨_, _, NdRange.wavefrontAt 4294967280 4294967295 0 1, rfl, rfl, rfl, rfl, rfl, rfl, rfl,
    ⟨Array.mem_of_getElem? (i := 1) rfl, 1, rfl, Nat.one_pos⟩, rfl, rfl⟩

/-- Two launches of a program with a load. A group of eight items on two lanes stays far below all
bounds, and the run in words is the run. With the largest group there is a run in words is a fault. -/
theorem Job.words_hold_turns_iff_of_largest_group :
    ∃ (device wide : Device SyntheticProgram FixedLatency Placer) (nd large : NdRange),
      Device.build 0 { computeUnits := 2, streamCores := 2, wavefrontSize := 4 } (.ofKinds [.load] 256)
        { latency := 3 } PlacementPolicy.roundRobin.build = .ok device ∧
      NdRange.create 1 0 "kernel" ⟨24, 1, 1⟩ ⟨8, 1, 1⟩ 4 = .ok nd ∧
      (letI _ := Sums.words; (runWithin none).outcome (Job.fresh device .reverse .discard nd)) =
        (runWithin none).outcome (Job.fresh device .reverse .discard nd) ∧
      Device.build 0 .widest (.ofKinds [.load] 256) { latency := 3 }
        PlacementPolicy.roundRobin.build = .ok wide ∧
      NdRange.create 1 0 "kernel" ⟨4294967295, 1, 1⟩ ⟨4294967295, 1, 1⟩ 4294967280 = .ok large ∧
      large.TurnsInWords 16 ∧
      ∃ cycles, ∀ room, cycles ≤ room → (letI _ := Sums.words;
        (do begin; drive room none : Attempt (Job _ _ _) Outcome).outcome
          (Job.fresh wide .reverse .discard large)).1 = .error (.fault .sumOverflow) := by
  have reliable := PlacementPolicy.roundRobin.reliable_build
  obtain ⟨wide, large, -, built, config, free, made, group, admitted, -⟩ :=
    DeviceConfig.widest_launch
  let device : Device SyntheticProgram FixedLatency Placer :=
    { id := 0, config := { computeUnits := 2, streamCores := 2, wavefrontSize := 4 }
      cluster := .create 0 2 2 (.ofKinds [.load] 256) { latency := 3 }
      placement := PlacementPolicy.roundRobin.build
      idle := .full 2
      busy := .empty 2 }
  have valid : DeviceConfig.validate { computeUnits := 2, streamCores := 2, wavefrontSize := 4 } =
      .ok () := rfl
  have built' : Device.build 0 { computeUnits := 2, streamCores := 2, wavefrontSize := 4 }
      (.ofKinds [.load] 256) { latency := 3 } PlacementPolicy.roundRobin.build = .ok device := rfl
  have made' : NdRange.create 1 0 "kernel" ⟨24, 1, 1⟩ ⟨8, 1, 1⟩ 4 = .ok _ := rfl
  refine ⟨device, wide, _, large, built', made', ?_, built, made, ?_⟩
  · obtain ⟨-, each⟩ := @words_hold_turns_iff _ _ _ _ _ device valid (by decide) rfl
      _ _ _ _ _ _ _ made' rfl
    exact (each 0 [.load] 256 _ _ _ .reverse .discard reliable built').1
      ⟨by decide, fun _ => by decide⟩ none (by decide +kernel)
  · obtain ⟨words, each⟩ := words_hold_turns_iff (config ▸ rfl) (config ▸ by decide) free made admitted
    rw [config] at words each
    have exceeds : ¬ large.SumsInWords (.ofKinds [.load] 256) 16 := by
      intro fits
      have last := fits.1
      rw [group] at last
      exact absurd last (by decide)
    obtain ⟨cycles, stats, faults⟩ :=
      (each 0 [.load] 256 _ _ _ .reverse .discard reliable built).2 exceeds
    exact ⟨words, cycles, fun room enough => (faults room enough).2⟩

/-- A device and a launch with everything that is asked for, and a turn whose end is no word: words do
not give its items, and where the run would be over after some cycles in words it is a fault. -/
theorem Job.last_turn_faults :
    ∃ (device : Device SyntheticProgram FixedLatency Placer) (nd : NdRange) (w : Wavefront),
      DeviceConfig.widest.validate = .ok () ∧
      Device.build 0 .widest (.ofKinds [.load] 256) { latency := 3 }
        PlacementPolicy.roundRobin.build = .ok device ∧
      NdRange.create 1 0 "kernel" ⟨4294967295, 1, 1⟩ ⟨4294967295, 1, 1⟩ 4294967280 = .ok nd ∧
      (begin.outcome (Job.fresh device .reverse .discard nd)).1 = .ok () ∧
      nd.TakesTurn device.config.streamCores w 0 ∧
      (w.subwavefront 0 device.config.streamCores).start + device.config.streamCores = countBound ∧
      @Wavefront.subwavefront? .words w 0 device.config.streamCores = none ∧
      ∃ cycles stats, ∀ room, cycles ≤ room →
        ((do begin; drive room none : Attempt (Job _ _ _) Outcome).outcome
          (Job.fresh device .reverse .discard nd)).1 = .ok (.completed stats) ∧
        (letI _ := Sums.words; (do begin; drive room none : Attempt (Job _ _ _) Outcome).outcome
          (Job.fresh device .reverse .discard nd)).1 = .error (.fault .sumOverflow) := by
  obtain ⟨device, nd, w, built, config, free, made, group, admitted, admitted', takes, ends, lost⟩ :=
    DeviceConfig.widest_launch
  have words := turnsInWords (config ▸ rfl) (config ▸ by decide) free made admitted
  rw [config] at words
  have exceeds : ¬ nd.SumsInWords (.ofKinds [.load] 256) 16 := fun fits =>
    absurd (words.ends.mpr fits.1 w 0 takes) (Nat.not_lt.mpr (Nat.le_of_eq ends.symm))
  refine ⟨device, nd, w, rfl, built, made, admitted', ?_, ?_, ?_, ?_⟩
  · rw [config]
    exact takes
  · rw [config]
    exact ends
  · rw [config]
    exact lost
  · exact exists_fault built (by decide) (PlacementPolicy.reliable_build _) made words .reverse .discard
      admitted' exceeds

end Accelerator
