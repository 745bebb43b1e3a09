import Accelerator.Proofs.Memory.DeferredFills
import Accelerator.Proofs.Memory.Hierarchy
import Mathlib.Algebra.BigOperators.Intervals

/-!
# The time and the cost of requests

A request looks up every line that holds a byte of it, once and in ascending order. It takes as long
as its slowest line: the time of a hit if every line is resident as soon as the fills of other
cycles are published, and that of the memory behind the cache on top of it otherwise. Each line
counts as a hit or as a miss, and the memory behind the cache is accessed once for every miss.

All requests made to two new tiers so far come down to one session with the cache, so that what is
resident can be said of its description (`requests_timed_and_counted`).
-/

namespace Accelerator

/-! ## The lines of a request -/

/-- The lines of `lineSize` bytes that hold a byte of the request, which has at least one. -/
def MemoryRequest.span (lineSize : Nat) (request : MemoryRequest) : Finset Nat :=
  (Finset.Ico request.addr (request.addr + max request.bytes 1)).image (· / lineSize)

/-- The look-ups of a request made at a cycle. -/
def MemoryRequest.lookups (lineSize : Nat) (asked : MemoryRequest × Nat) : List Cache.Use :=
  (asked.1.span lineSize).sort.map (.lookup · asked.2)

theorem MemoryRequest.mem_span {lineSize : Nat} (pos : 0 < lineSize) (request : MemoryRequest)
    (line : Nat) :
    line ∈ request.span lineSize ↔
      ∃ byte, request.addr ≤ byte ∧ byte < request.addr + max request.bytes 1 ∧
        line * lineSize ≤ byte ∧ byte < (line + 1) * lineSize := by
  simp only [span, Finset.mem_image, Finset.mem_Ico, and_assoc]
  refine exists_congr fun byte => and_congr_right' (and_congr_right' ?_)
  rw [← Nat.le_div_iff_mul_le pos, ← Nat.div_lt_iff_lt_mul pos, Nat.lt_succ_iff, and_comm]
  exact le_antisymm_iff

namespace Hierarchy

variable {m : Hierarchy} {now : Nat}

theorem mem_lines (pos : 0 < m.l2.lineSize) (request : MemoryRequest) (line : Nat) :
    line ∈ m.lines request ↔ line ∈ request.span m.l2.lineSize := by
  have between : line ∈ m.lines request ↔ request.addr / m.l2.lineSize ≤ line ∧
      line ≤ (request.addr + max request.bytes 1 - 1) / m.l2.lineSize := by
    rw [lines, List.mem_range'_1]
    omega
  rw [between, request.mem_span pos]
  constructor
  · rintro ⟨first, last⟩
    have start : request.addr < (line + 1) * m.l2.lineSize :=
      (Nat.div_lt_iff_lt_mul pos).mp (Nat.lt_succ_of_le first)
    have stop := (Nat.le_div_iff_mul_le pos).mp last
    have next := Nat.add_one_mul line m.l2.lineSize
    exact ⟨max request.addr (line * m.l2.lineSize), by omega, by omega, by omega, by omega⟩
  · rintro ⟨byte, first, last, start, stop⟩
    have here : byte / m.l2.lineSize = line := Nat.div_eq_of_lt_le start stop
    rw [← here]
    exact ⟨Nat.div_le_div_right first, Nat.div_le_div_right (by omega)⟩

/-- The lines of a request are looked up in ascending order. -/
theorem lines_eq_sort (pos : 0 < m.l2.lineSize) (request : MemoryRequest) :
    m.lines request = (request.span m.l2.lineSize).sort := by
  have ascending : (m.lines request).Pairwise (· < ·) := List.pairwise_lt_range'
  have same : (m.lines request).toFinset = request.span m.l2.lineSize := by
    ext line
    rw [List.mem_toFinset, mem_lines pos]
  rw [← same]
  exact ((List.toFinset_sort _ (ascending.imp Nat.ne_of_lt)).mpr (ascending.imp Nat.le_of_lt)).symm

/-! ## The look-ups of a request -/

theorem l2_accessLine (m : Hierarchy) (line now : Nat) :
    (m.accessLine line now).2.l2 = (m.l2.use (.lookup line now)).2 := by
  rw [accessLine_eq, Cache.use_lookup]
  rfl

theorem l2_foldl_accessNext (lines : List Nat) (now : Nat) (known : Nat × Hierarchy) :
    (lines.foldl (accessNext now) known).2.l2 =
      (session Cache.use known.2.l2 (lines.map (.lookup · now))).2 := by
  induction lines generalizing known with
  | nil => rfl
  | cons line rest ih =>
      have next : (accessNext now known line).2.l2 = (known.2.l2.use (.lookup line now)).2 :=
        l2_accessLine known.2 line now
      rw [List.foldl_cons, ih, next, List.map_cons, session_cons]

/-- A request looks up its lines, and does nothing else to the cache. -/
theorem l2_ask (pos : 0 < m.l2.lineSize) (asked : MemoryRequest × Nat) :
    (MemoryService.ask m asked).2.l2 =
      (session Cache.use m.l2 (MemoryRequest.lookups m.l2.lineSize asked)).2 := by
  rw [MemoryRequest.lookups, ← lines_eq_sort pos]
  exact l2_foldl_accessNext _ asked.2 (0, m)

/-! ## The slowest line -/

/-- The slowest line decides. -/
theorem slowest_le_iff (m : Hierarchy) (known bound : Nat) (lines : List Nat) :
    m.slowest known lines ≤ bound ↔
      known ≤ bound ∧ ∀ line ∈ lines, m.lineLatency line ≤ bound := by
  induction lines generalizing known with
  | nil => simp [slowest]
  | cons line rest ih =>
      rw [List.forall_mem_cons, ← and_assoc, ← Nat.max_le]
      exact ih (max known (m.lineLatency line))

theorem lineLatency_le_slowest (m : Hierarchy) (known : Nat) {lines : List Nat} {line : Nat}
    (member : line ∈ lines) : m.lineLatency line ≤ m.slowest known lines :=
  ((m.slowest_le_iff known _ lines).mp (Nat.le_refl _)).2 line member

/-- One line that is not resident makes a request wait for the memory behind the cache. -/
theorem slowest_eq (m : Hierarchy) {lines : List Nat} (some : lines ≠ []) :
    m.slowest 0 lines =
      if ∀ line ∈ lines, m.l2.isResident line = true then m.l2.hitLatency
      else m.l2.hitLatency + m.hbm.latency := by
  split
  next all =>
    refine Nat.le_antisymm ?_ ?_
    · refine (m.slowest_le_iff ..).mpr ⟨Nat.zero_le _, fun line member => ?_⟩
      rw [lineLatency, if_pos (all line member)]
    · obtain ⟨line, member⟩ := List.exists_mem_of_ne_nil lines some
      have least := m.lineLatency_le_slowest 0 member
      rwa [lineLatency, if_pos (all line member)] at least
  next missing =>
    push Not at missing
    obtain ⟨line, member, absent⟩ := missing
    refine Nat.le_antisymm ?_ ?_
    · refine (m.slowest_le_iff ..).mpr ⟨Nat.zero_le _, fun other _ => ?_⟩
      unfold lineLatency
      split
      · exact Nat.le_add_right ..
      · exact Nat.le_refl _
    · have least := m.lineLatency_le_slowest 0 member
      rwa [lineLatency, if_neg absent] at least

/-! ## Two tiers since they were built -/

/-- Requests leave the latencies and the size of a line as they were built, and count the same
misses in both tiers. -/
structure Built (config : MemoryConfig) (m : Hierarchy) : Prop where
  lineSize : m.l2.lineSize = max config.lineSize 1
  hitLatency : m.l2.hitLatency = config.l2HitLatency
  latency : m.hbm.latency = config.hbmLatency
  accesses : m.hbm.accesses = m.l2.misses

theorem built_create (config : MemoryConfig) : (create config).Built config := ⟨rfl, rfl, rfl, rfl⟩

variable {config : MemoryConfig}

theorem Built.pos (built : m.Built config) : 0 < m.l2.lineSize := by
  rw [built.lineSize]
  exact Nat.le_max_right ..

theorem Built.settle (built : m.Built config) (now : Nat) : (m.settle now).Built config where
  lineSize := (m.l2.lineSize_settle now).trans built.lineSize
  hitLatency := (m.l2.hitLatency_settle now).trans built.hitLatency
  latency := built.latency
  accesses := built.accesses.trans (m.l2.misses_settle now).symm

theorem Built.touched (built : m.Built config) (line : Nat) : (m.touched line).Built config := by
  have lineSize := (m.l2.lineSize_noted line).trans built.lineSize
  have hitLatency := (m.l2.hitLatency_noted line).trans built.hitLatency
  unfold Hierarchy.touched
  cases resident : m.l2.isResident line with
  | true =>
      have counted := built.accesses
      rw [Cache.noted_of_resident resident] at lineSize hitLatency ⊢
      exact ⟨lineSize, hitLatency, built.latency, counted⟩
  | false =>
      have counted := congrArg (· + 1) built.accesses
      rw [Cache.noted_of_absent resident] at lineSize hitLatency ⊢
      exact ⟨lineSize, hitLatency, built.latency, counted⟩

theorem Built.touchedAll (built : m.Built config) (lines : List Nat) :
    (m.touchedAll lines).Built config := by
  induction lines generalizing m with
  | nil => exact built
  | cons line rest ih => exact ih (built.touched line)

theorem Built.ask (built : m.Built config) (asked : MemoryRequest × Nat) :
    (MemoryService.ask m asked).2.Built config := by
  rw [MemoryService.ask, access_eq]
  exact (built.settle asked.2).touchedAll _

/-! ## All requests so far -/

/-- All requests so far are one session with the cache. -/
theorem Built.l2_session (built : m.Built config) (past : List (MemoryRequest × Nat)) :
    (session MemoryService.ask m past).2.l2 =
      (session Cache.use m.l2
        (past.flatMap (MemoryRequest.lookups (max config.lineSize 1)))).2 := by
  induction past generalizing m with
  | nil => rfl
  | cons asked rest ih =>
      rw [session_cons, ih (built.ask asked), l2_ask built.pos, built.lineSize, List.flatMap_cons,
        session_append]

theorem countP_lookups_asked (lineSize : Nat) (asked : MemoryRequest × Nat) :
    (MemoryRequest.lookups lineSize asked).countP Cache.Use.isLookup =
      (asked.1.span lineSize).card := by
  have all : ∀ use ∈ MemoryRequest.lookups lineSize asked, use.isLookup = true := by
    intro use member
    obtain ⟨line, -, rfl⟩ := List.mem_map.mp member
    rfl
  rw [List.countP_eq_length.mpr all, MemoryRequest.lookups, List.length_map, Finset.length_sort]

theorem countP_lookups (lineSize : Nat) (past : List (MemoryRequest × Nat)) :
    (past.flatMap (MemoryRequest.lookups lineSize)).countP Cache.Use.isLookup =
      (past.map fun asked => (asked.1.span lineSize).card).sum := by
  rw [List.countP_flatMap]
  exact congrArg List.sum (List.map_congr_left fun asked _ => countP_lookups_asked lineSize asked)

/-- The answer to a request, by the lines that it finds resident. -/
theorem Built.ready (built : m.Built config) (request : MemoryRequest) (now : Nat) :
    (MemoryService.ask m (request, now)).1 = now +
      if ∀ line ∈ request.span (max config.lineSize 1), (m.l2.settle now).isResident line = true
      then config.l2HitLatency else config.l2HitLatency + config.hbmLatency := by
  have settled := built.settle now
  have lines : ∀ line, line ∈ m.lines request ↔ line ∈ request.span (max config.lineSize 1) := by
    rw [← built.lineSize]
    exact mem_lines built.pos request
  rw [MemoryService.ask, access_eq, slowest_eq _ (m.lines_ne_nil request), settled.hitLatency,
    settled.latency]
  simp only [lines]
  rfl

/-- Two new tiers have served any requests. The memory behind the cache has been accessed once for
each miss, and each line of each request has been a hit or a miss. The next request looks up the
lines that hold a byte of it, each once; it takes the time of a hit if the fills of other cycles
make them all resident, and that of the memory behind the cache on top of it otherwise. -/
theorem requests_timed_and_counted (config : MemoryConfig) (past : List (MemoryRequest × Nat)) :
    let lineSize := max config.lineSize 1
    let m := (session MemoryService.ask (create config) past).2
    let r := (session DeferredFifo.use { capacity := config.l2Lines }
      (past.flatMap (MemoryRequest.lookups lineSize))).2
    m.hbm.accesses = m.l2.misses ∧
      m.l2.hits + m.l2.misses = (past.map fun asked => (asked.1.span lineSize).card).sum ∧
      m.l2.Follows r ∧
      ∀ (request : MemoryRequest) (now : Nat),
        (∀ line, line ∈ request.span lineSize ↔
          ∃ byte, request.addr ≤ byte ∧ byte < request.addr + max request.bytes 1 ∧
            line * lineSize ≤ byte ∧ byte < (line + 1) * lineSize) ∧
        (MemoryService.ask m (request, now)).2.l2 = (session Cache.use m.l2
          ((request.span lineSize).sort.map (.lookup · now))).2 ∧
        (MemoryService.ask m (request, now)).1 = now +
          if ∀ line ∈ request.span lineSize, line ∈ (r.publish now).lines
          then config.l2HitLatency else config.l2HitLatency + config.hbmLatency := by
  intro lineSize m r
  have built : m.Built config :=
    session_kept (P := Built config) (fun _ asked _ built => built.ask asked) (built_create config)
  have looked := (built_create config).l2_session past
  have follows : m.l2.Follows r := by
    rw [show m.l2 = _ from looked]
    exact ((Cache.follows_create ..).session _).2
  have counted : m.l2.hits + m.l2.misses =
      (past.map fun asked => (asked.1.span lineSize).card).sum := by
    rw [show m.l2 = _ from looked, Cache.hits_add_misses_session, countP_lookups]
    exact Nat.zero_add _
  refine ⟨built.accesses, counted, follows, fun request now => ⟨?_, ?_, ?_⟩⟩
  · exact request.mem_span (Nat.le_max_right ..)
  · rw [l2_ask built.pos, built.lineSize]
    rfl
  · have resident : ∀ line, (m.l2.settle now).isResident line = true ↔
        line ∈ (r.publish now).lines := fun line => by
      rw [(follows.settle now).resident, decide_eq_true_iff]
    rw [built.ready request now]
    simp only [resident]
    rfl

end Hierarchy

end Accelerator
