import Accelerator.Proofs.Device.SingleOwner
import Accelerator.Proofs.Device.Termination

/-!
# What a whole run does

When a run is over nothing is owed and no group waits, so that its statistics are the totals with
which it began. At the beginning nobody owes anything either, and what is put down for the groups
of the launch is the price of all its wavefronts. Together this tells, for every new device and
every launch that it accepts, that the run comes to its end, and how much has been done by then.
-/

namespace Accelerator

/-! ## The price of a launch -/

namespace Tariff

variable {p : SyntheticProgram} {lanes : Nat}

theorem priceOf_append (t : Tariff) (first second : List Wavefront) :
    t.priceOf p lanes (first ++ second) = t.priceOf p lanes first + t.priceOf p lanes second := by
  simp [priceOf]

theorem priceOf_flatMap (t : Tariff) (groups : List Nat) (row : Nat → List Wavefront) :
    t.priceOf p lanes (groups.flatMap row) =
      (groups.map fun group => t.priceOf p lanes (row group)).sum := by
  induction groups with
  | nil => rfl
  | cons group rest ih =>
      rw [List.flatMap_cons, priceOf_append, ih, List.map_cons, List.sum_cons]

theorem priceOf_instructions (wavefronts : List Wavefront) :
    instructions.priceOf p lanes wavefronts = wavefronts.length * p.length := by
  simp only [priceOf, span_instructions, List.map_const', List.sum_replicate_nat]

theorem priceOf_requests (wavefronts : List Wavefront) :
    requests.priceOf p lanes wavefronts = (p.kinds.count .load + p.kinds.count .store) *
      (wavefronts.map fun w => (w.subwavefrontCount? lanes).getD 0).sum := by
  simp only [priceOf, span_requests]
  exact List.sum_map_mul_left _ _ _

/-- Where the lanes are a divisor, every wavefront has a number of turns. -/
theorem map_subwavefrontCount? (width : laneWord (max lanes 1) ≠ 0) (wavefronts : List Wavefront) :
    wavefronts.map (·.subwavefrontCount? lanes) =
      (wavefronts.map fun w => (w.subwavefrontCount? lanes).getD 0).map some := by
  rw [List.map_map]
  apply List.map_congr_left
  intro w _
  rcases Bench.subwavefrontCount?_of_width (w := w) width with ⟨turns, counted⟩
  rw [counted]
  simp [counted]

end Tariff

namespace NdRange

/-- No wavefront that a group is cut into is without items. -/
theorem items_of_mem_groupWavefronts {size groupSize group : Nat} (sized : size ≠ 0) {w : Wavefront}
    (member : w ∈ groupWavefronts size groupSize (ceilDiv groupSize size) group) :
    w.items.start < w.items.stop := by
  rcases List.mem_map.mp member with ⟨number, inside, rfl⟩
  have positive : 0 < size := Nat.pos_of_ne_zero sized
  have below : (number + 1) * size ≤ groupSize + size - 1 :=
    (Nat.le_div_iff_mul_le positive).mp (List.mem_range.mp inside)
  rw [Nat.add_mul, Nat.one_mul] at below
  show number * size < min (number * size + size) groupSize
  omega

section Cut

variable {launch id : Nat} {kernelName : String} {globalSize localSize : Dim3}
  {wavefrontSize count size : Nat}

theorem lt_of_wavefrontsOf_cut {group : Nat} {wavefronts : List Wavefront}
    (listed : (cut launch id kernelName globalSize localSize wavefrontSize count
      size).wavefrontsOf group = .ok wavefronts) : group < count := by
  apply Nat.lt_of_not_le
  intro outside
  have absent : (cut launch id kernelName globalSize localSize wavefrontSize count
      size).group group = .error (.unknownGroup group) := by
    simp [NdRange.group, cut, outside]
    rfl
  rw [wavefrontsOf, absent] at listed
  cases listed

/-- What is put down for all groups of a new launch is the price of its wavefronts. -/
theorem sum_groupPrice_cut (t : Tariff) (p : SyntheticProgram) (lanes : Nat) :
    let nd := cut launch id kernelName globalSize localSize wavefrontSize count size
    (nd.pending.map (Job.groupPrice t p lanes nd)).sum = t.priceOf p lanes nd.wavefronts.toList := by
  intro nd
  have prices : ∀ group ∈ nd.pending, Job.groupPrice t p lanes nd group =
      t.priceOf p lanes (groupWavefronts wavefrontSize size (ceilDiv size wavefrontSize) group) := by
    intro group waits
    rw [Job.groupPrice, wavefrontsOf_cut (List.mem_range.mp waits)]
  rw [List.map_congr_left prices]
  exact (t.priceOf_flatMap (List.range count) _).symm

end Cut

end NdRange

/-- The totals of a device are sums over its units. -/
theorem Device.total_eq_sum {ι μ π : Type} (d : Device ι μ π) (count : UnitStats → Nat) :
    d.total count = (d.units.map fun u => count u.stats).sum := by
  unfold Device.total
  induction d.units with
  | nil => rfl
  | cons u rest ih => rw [List.foldr_cons, ih, List.map_cons, List.sum_cons]

namespace Job

variable {μ π : Type} [Placement π] {p : SyntheticProgram} {lanes : Nat}
  {held : ComputeUnit → Nat} {price : Nat → Nat}

/-! ## A new job -/

section Fresh

variable {id : Nat} {config : DeviceConfig} {memory : μ} {placement : π}
  {device : Device SyntheticProgram μ π} {launch number : Nat} {kernelName : String}
  {globalSize localSize : Dim3} {wavefrontSize : Nat} {nd : NdRange}

theorem Follows.fresh (built : Device.build id config p memory placement = .ok device)
    (small : config.wavefrontSize < countBound) (reliable : Placement.Reliable placement)
    (made : NdRange.create launch number kernelName globalSize localSize wavefrontSize = .ok nd)
    (order : StageOrder) (sink : Sink) :
    (Job.fresh device order sink nd).Follows p config.streamCores := by
  have units := Device.getElem?_of_build built order
  refine ⟨.fresh built small reliable made order sink, ?_, fun unit u found => ?_, ?_⟩
  · obtain ⟨-, rfl⟩ := Device.build_eq_ok built
    rfl
  · obtain ⟨-, rfl⟩ := (units unit u).mp found
    rcases Device.build_eq_ok built with ⟨valid, -⟩
    rcases DeviceConfig.validate_eq_ok valid with ⟨-, lanes, -⟩
    exact ⟨.create p lanes order, by simp [ComputeUnit.create]⟩
  · rcases NdRange.create_eq_ok made with ⟨sized, -, itemCount, groupSize, -, -, rfl⟩
    intro group wavefronts listed w member
    have listed : (NdRange.cut launch number kernelName globalSize localSize wavefrontSize
        (itemCount / groupSize) groupSize).wavefrontsOf group = .ok wavefronts := listed
    rw [NdRange.wavefrontsOf_cut (NdRange.lt_of_wavefrontsOf_cut listed)] at listed
    cases listed
    exact NdRange.items_of_mem_groupWavefronts sized member

theorem Follows.admitted {job : Job SyntheticProgram μ π} (follows : job.Follows p lanes) :
    job.admitted.Follows p lanes :=
  ⟨follows.owned.congr rfl rfl rfl rfl, follows.isa, follows.units, follows.items⟩

omit [Placement π] in
/-- The ledger of a new job shows what is put down for the launch. -/
theorem ledger_fresh (built : Device.build id config p memory placement = .ok device)
    (order : StageOrder) (sink : Sink)
    (nothing : ∀ unit, held { ComputeUnit.create unit id config.streamCores with order } = 0) :
    (Job.fresh device order sink nd).ledger held price = (nd.pending.map price).sum := by
  have zero : ((Job.fresh device order sink nd).device.units.map held).sum = 0 := by
    apply List.sum_eq_zero
    intro n member
    rcases List.mem_map.mp member with ⟨u, here, rfl⟩
    rcases List.getElem?_of_mem here with ⟨unit, found⟩
    rw [Device.units, Array.getElem?_toList] at found
    obtain ⟨-, rfl⟩ := (Device.getElem?_of_build built order unit u).mp found
    exact nothing unit
  rw [ledger, zero, Nat.zero_add]
  rfl

omit [Placement π] in
/-- What has been counted and what is owed in a new job is what is put down for all wavefronts. -/
theorem ledger_fresh_owed (built : Device.build id config p memory placement = .ok device)
    (made : NdRange.create launch number kernelName globalSize localSize wavefrontSize = .ok nd)
    (order : StageOrder) (sink : Sink) (t : Tariff) (lanes : Nat) (count : UnitStats → Nat)
    (nothing : count {} = 0) :
    (Job.fresh device order sink nd).ledger (fun u => count u.stats + u.owed t p)
        (groupPrice t p lanes nd) = t.priceOf p lanes nd.wavefronts.toList := by
  rcases NdRange.create_eq_ok made with ⟨-, -, itemCount, groupSize, -, -, rfl⟩
  rw [ledger_fresh built order sink fun unit => ?_]
  · exact NdRange.sum_groupPrice_cut t p lanes
  · have drained : ({ ComputeUnit.create unit id config.streamCores with order } :
        ComputeUnit).isDrained = true := by
      simp [ComputeUnit.isDrained, ComputeUnit.create, Latches.isEmpty, Stage.handingOn,
        Latches.get, Latch.isEmpty]
    rw [ComputeUnit.owed_of_isDrained drained, Nat.add_zero]
    exact nothing

omit [Placement π] in
theorem ledger_fresh_groups (built : Device.build id config p memory placement = .ok device)
    (made : NdRange.create launch number kernelName globalSize localSize wavefrontSize = .ok nd)
    (order : StageOrder) (sink : Sink) :
    (Job.fresh device order sink nd).ledger
      (fun u => u.stats.groups + if u.isBusy then 1 else 0) (fun _ => 1) = nd.groupCount := by
  rcases NdRange.create_eq_ok made with ⟨-, -, itemCount, groupSize, -, -, rfl⟩
  rw [ledger_fresh built order sink fun _ => rfl]
  simp [NdRange.cut, NdRange.groupCount]

omit [Placement π] in
/-- A run of a new job begins by taking the launch, if it is let in. -/
theorem begin_fresh {ι : Type} {isa : ι} {device : Device ι μ π}
    (built : Device.build id config isa memory placement = .ok device) (order : StageOrder)
    (sink : Sink) (admitted : (begin.outcome (Job.fresh device order sink nd)).1 = .ok ()) :
    begin.outcome (Job.fresh device order sink nd) =
      (.ok (), (Job.fresh device order sink nd).admitted) := by
  obtain ⟨-, rfl⟩ := Device.build_eq_ok built
  rcases begin_cases _ with ⟨e, refused⟩ | ⟨-, active, under_way, -⟩ | ⟨begins, -⟩
  · rw [refused] at admitted
    cases admitted
  · cases under_way
  · exact begins

end Fresh

/-! ## A job that is over -/

section Quiet

variable {job : Job SyntheticProgram μ π} {unit : Nat} {u : ComputeUnit}

/-- When a run is over its statistics show the whole ledger. -/
theorem Quiet.total_eq (quiet : Quiet job) (owned : job.Owned)
    (found : job.device.cluster.units[unit]? = some u) (count : UnitStats → Nat)
    (settled : ∀ u : ComputeUnit, u.Sound → u.group = none → held u = count u.stats) :
    job.device.total count = job.ledger held price := by
  have all : ∀ u ∈ job.device.units, held u = count u.stats := by
    intro u member
    rcases List.getElem?_of_mem member with ⟨unit, here⟩
    rw [Device.units, Array.getElem?_toList] at here
    exact settled u (owned.sound unit u here) (quiet.group_eq_none owned here)
  rw [ledger, quiet.pending_eq_nil owned found, Device.total_eq_sum, List.map_congr_left all]
  rfl

end Quiet

/-! ## Whole runs -/

section Runs

variable [MemoryService μ] {job final : Job SyntheticProgram μ π} {cycles unit : Nat}
  {u : ComputeUnit}

omit [Placement π] in
theorem holding_instructions (kept : .end ∉ p.kinds) :
    Holding μ p fun u => u.stats.instructions + u.owed .instructions p :=
  fun _ _ _ sound follows _ => follows.instructions_afterwards sound kept

omit [Placement π] in
theorem holding_requests (kept : .end ∉ p.kinds) :
    Holding μ p fun u => u.stats.requests + u.owed .requests p :=
  fun _ _ _ sound follows _ => follows.requests_afterwards sound kept

/-- A run that ends has an answer as soon as the counter of cycles has room for it. -/
theorem Ends.outcomes {begun : Job SyntheticProgram μ π}
    (begins : begin.outcome job = (.ok (), begun)) (ends : Ends p lanes begun final cycles) :
    (∀ room, cycles ≤ room →
      (do begin; drive room none : Attempt (Job SyntheticProgram μ π) Outcome).outcome job =
        (.ok (.completed final.device.stats), final.finished)) ∧
      (begun.device.cycle + cycles < wordBound →
        run.outcome job = (.ok final.device.stats, final.finished)) := by
  constructor
  · intro room enough
    rw [Attempt.outcome_bind_of_ok begins, ends.drive_eq room enough, finish_outcome]
  · intro fits
    have room : cycles ≤ wordBound - 1 - begun.device.cycle := by omega
    rw [run_outcome, runWithin_outcome begins, ends.drive_eq _ room]
    rfl

/-- A run takes no unit away. -/
theorem SameBooks.exists_unit (books : SameBooks p lanes final job)
    (before : job.device.cluster.units[unit]? = some u) :
    ∃ v, final.device.cluster.units[unit]? = some v := by
  have ones : final.ledger (fun _ => 1) (fun _ => 0) = job.ledger (fun _ => 1) fun _ => 0 :=
    books.ledger _ _ (fun _ _ _ _ _ _ _ => rfl) fun _ _ _ _ _ _ => rfl
  have sizes : final.device.cluster.units.size = job.device.cluster.units.size := by
    simpa [Job.ledger, Device.units] using ones
  have inside := (Array.getElem?_eq_some_iff.mp before).1
  rw [← sizes] at inside
  exact ⟨_, Array.getElem?_eq_getElem inside⟩

/-- The statistics when a run is over are a total with which it began. -/
theorem Ends.total_eq (ends : Ends p lanes job final cycles)
    (found : final.device.cluster.units[unit]? = some u) {count : UnitStats → Nat}
    (settled : ∀ u : ComputeUnit, u.Sound → u.group = none → held u = count u.stats)
    (transfers : Transfers lanes job.launch held price) (holding : Holding μ p held) :
    final.device.total count = job.ledger held price := by
  rw [ends.quiet.total_eq ends.books.follows.owned found count settled]
  exact ends.books.ledger held price transfers holding

/-- What has been counted when a run is over was put down for the launch when it began. -/
theorem Ends.total_owed (ends : Ends p lanes job final cycles)
    (found : final.device.cluster.units[unit]? = some u) {t : Tariff} {count : UnitStats → Nat}
    (holding : Holding μ p fun u => count u.stats + u.owed t p) :
    final.device.total count = job.ledger (fun u => count u.stats + u.owed t p)
      (groupPrice t p lanes job.launch) := by
  have settled : ∀ u : ComputeUnit, u.Sound → u.group = none →
      count u.stats + u.owed t p = count u.stats := by
    intro u sound free
    rw [sound.owed_eq_zero free, Nat.add_zero]
  exact ends.total_eq found settled (transfers_owed t p lanes _ count) holding

/-- Every group of the launch has been counted by some unit when a run is over. -/
theorem Ends.total_groups (ends : Ends p lanes job final cycles)
    (found : final.device.cluster.units[unit]? = some u) :
    final.device.total (·.groups) =
      job.ledger (fun u => u.stats.groups + if u.isBusy then 1 else 0) fun _ => 1 := by
  have settled : ∀ u : ComputeUnit, u.Sound → u.group = none →
      u.stats.groups + (if u.isBusy then 1 else 0) = u.stats.groups := by
    intro u _ free
    simp [ComputeUnit.isBusy, free]
  have transfers : Transfers lanes job.launch
      (fun u => u.stats.groups + if u.isBusy then 1 else 0) fun _ => 1 := by
    intro u group wavefronts _ _ free _
    simp [ComputeUnit.isBusy, ComputeUnit.loaded, free]
  exact ends.total_eq found settled transfers fun _ _ _ _ _ _ => ComputeUnit.groups_afterwards

end Runs

/-- Every run of a new launch on a new device comes to its end, whatever the program, the shape of
the launch and the memory, provided that the counter of cycles has room for it. By then every
group is done and every unit idle, every wavefront has had each instruction of the program written
back, and has made a request for each of its sub-wavefronts with each load and each store. -/
theorem run_completes {id : Nat} {config : DeviceConfig} {kinds : List InstKind} {baseAddr : Nat}
    [MemoryService μ] {memory : μ} {device : Device SyntheticProgram μ Placer}
    (built : Device.build id config (.ofKinds kinds baseAddr) memory config.placement.build =
      .ok device)
    (small : config.wavefrontSize < countBound) {launch number : Nat} {kernelName : String}
    {globalSize localSize : Dim3} {wavefrontSize : Nat} {nd : NdRange}
    (made : NdRange.create launch number kernelName globalSize localSize wavefrontSize = .ok nd)
    (order : StageOrder) (sink : Sink)
    (admitted : (begin.outcome (Job.fresh device order sink nd)).1 = .ok ()) :
    let job := Job.fresh device order sink nd
    let p := SyntheticProgram.ofKinds kinds baseAddr
    ∃ (cycles : Nat) (stats : RunStats) (after : Job SyntheticProgram μ Placer),
      (∀ room, cycles ≤ room →
        (do begin; drive room none : Attempt (Job SyntheticProgram μ Placer) Outcome).outcome job =
          (.ok (.completed stats), after)) ∧
      (cycles < wordBound → run.outcome job = (.ok stats, after)) ∧
      stats = after.device.stats ∧ stats.cycles = cycles ∧
      (∀ group < nd.groupCount, after.launch.status group = .ok .done) ∧
      after.launch.doneCount = nd.groupCount ∧
      after.device.busy.isEmpty = true ∧
      (∀ unit < config.computeUnits, after.device.idle.contains unit = true ∧
        after.device.busy.contains unit = false ∧
        ∃ u, after.device.cluster.units[unit]? = some u ∧ u.group = none) ∧
      stats.groups = nd.groupCount ∧
      stats.instructions = nd.wavefronts.size * p.length ∧
      ∃ turns : List Nat,
        nd.wavefronts.toList.map (·.subwavefrontCount? config.streamCores) = turns.map some ∧
        stats.requests = (p.kinds.count .load + p.kinds.count .store) * turns.sum := by
  intro job p
  have kept : .end ∉ p.kinds := SyntheticProgram.end_notMem_ofKinds kinds baseAddr
  have begins := begin_fresh built order sink admitted
  have follows : job.Follows p config.streamCores :=
    .fresh built small config.placement.reliable_build made order sink
  have follows := follows.admitted
  rcases follows.ends kept with ⟨final, cycles, ends⟩
  have owned := ends.books.follows.owned
  have shape := ends.books.sameRun.shape
  rcases Device.build_eq_ok built with ⟨valid, -⟩
  rcases DeviceConfig.validate_eq_ok valid with ⟨positive, -⟩
  have resident : ∀ unit < config.computeUnits,
      ∃ u, final.device.cluster.units[unit]? = some u := by
    intro unit inside
    have before : job.admitted.device.cluster.units[unit]? = some _ :=
      (Device.getElem?_of_build built order unit _).mpr ⟨inside, rfl⟩
    exact ends.books.exists_unit before
  rcases resident 0 positive with ⟨u, found⟩
  have width := DeviceConfig.laneWord_ne_zero valid small
  have counts : final.launch.groupCount = nd.groupCount := shape.groupCount
  have start : job.admitted.device.cycle = 0 := by
    obtain ⟨-, rfl⟩ := Device.build_eq_ok built
    rfl
  have passed : final.device.cycle = cycles := by
    rw [ends.cycle_eq, start, Nat.zero_add]
  rcases ends.outcomes begins with ⟨unbounded, bounded⟩
  rw [start, Nat.zero_add] at bounded
  refine ⟨cycles, final.device.stats, final.finished, unbounded, bounded, rfl, passed,
    fun group inside => ?_, ?_, ends.quiet.idle, fun unit inside => ?_, ?_, ?_, _,
    Tariff.map_subwavefrontCount? width _, ?_⟩
  · exact ends.quiet.status_eq_done owned found (counts ▸ inside)
  · exact (ends.quiet.doneCount_eq owned found).trans counts
  · rcases resident unit inside with ⟨v, here⟩
    rcases ends.quiet.idle_contains owned here with ⟨idle, busy⟩
    exact ⟨idle, busy, v, here, ends.quiet.group_eq_none owned here⟩
  · exact (ends.total_groups found).trans (ledger_fresh_groups built made order sink)
  · have total := ends.total_owed found (holding_instructions kept)
    have begun := ledger_fresh_owed built made order sink .instructions config.streamCores
      (·.instructions) rfl
    exact total.trans (begun.trans (Tariff.priceOf_instructions _))
  · have total := ends.total_owed found (holding_requests kept)
    have begun := ledger_fresh_owed built made order sink .requests config.streamCores
      (·.requests) rfl
    exact total.trans (begun.trans (Tariff.priceOf_requests _))

/-- On a device of two units with a memory that takes three cycles: 6 wavefronts have 3 instructions
written back, one of which is a load and makes 2 requests. -/
theorem run_completes_on_two_units :
    ∃ (device : Device SyntheticProgram FixedLatency Placer) (nd : NdRange),
      Device.build 0
        { computeUnits := 2, streamCores := 2, wavefrontSize := 4, placement := .roundRobin }
        (.ofKinds [.load, .alu]) { latency := 3 } PlacementPolicy.roundRobin.build = .ok device ∧
      NdRange.create 1 0 "kernel" ⟨24, 1, 1⟩ ⟨8, 1, 1⟩ 4 = .ok nd ∧
      ∃ (cycles : Nat) (stats : RunStats) (after : Job SyntheticProgram FixedLatency Placer),
        (cycles < wordBound →
          run.outcome (Job.fresh device .reverse .keepAll nd) = (.ok stats, after)) ∧
        stats.groups = 3 ∧ stats.instructions = 18 ∧ stats.requests = 12 := by
  have built : Device.build 0
      { computeUnits := 2, streamCores := 2, wavefrontSize := 4, placement := .roundRobin }
      (SyntheticProgram.ofKinds [.load, .alu]) ({ latency := 3 } : FixedLatency)
      PlacementPolicy.roundRobin.build = .ok _ := rfl
  have made : NdRange.create 1 0 "kernel" ⟨24, 1, 1⟩ ⟨8, 1, 1⟩ 4 = .ok _ := rfl
  refine ⟨_, _, built, made, ?_⟩
  obtain ⟨cycles, stats, after, -, runs, -, -, -, -, -, -, groups, instructions, turns, counted,
    requests⟩ := run_completes built (by decide) made .reverse .keepAll rfl
  refine ⟨cycles, stats, after, runs, groups, instructions, ?_⟩
  have twice : turns.map some = [2, 2, 2, 2, 2, 2].map some := counted.symm.trans rfl
  cases List.map_injective_iff.mpr (Option.some_injective _) twice
  exact requests

end Job

end Accelerator
