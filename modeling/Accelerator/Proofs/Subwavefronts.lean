import Accelerator.Proofs.Device.Fresh
import Accelerator.Proofs.Partition
import Accelerator.Proofs.Pipeline.Following

/-!
# How a wavefront is cut up

The number of sub-wavefronts is a quotient that is rounded up, and the bounds of each are sums that
are cut off at the end of the wavefront. All the same they fit: the bounds are the marks of a scale
(`Wavefront.mark`), and as many sub-wavefronts as are counted reach from the first mark to the last
(`Wavefront.CutInto`).

A configuration says how many sub-wavefronts a full wavefront has. No wavefront that the device can
be given has more.
-/

namespace Accelerator

namespace Wavefront

variable {w : Wavefront} {lanes turn count : Nat}

/-! ## Marks -/

/-- Where a turn begins: at the item after those of the turns before, if there is one. -/
def mark (w : Wavefront) (lanes turn : Nat) : Nat :=
  min (w.items.start + turn * lanes) w.items.stop

theorem monotone_mark (w : Wavefront) (lanes : Nat) : Monotone (w.mark lanes) := by
  intro a b le
  have more := Nat.mul_le_mul_right lanes le
  simp only [mark]
  omega

theorem mark_zero (ordered : w.items.start ≤ w.items.stop) : w.mark lanes 0 = w.items.start := by
  rw [mark, Nat.zero_mul, Nat.add_zero, Nat.min_eq_left ordered]

theorem mark_of_le (enough : w.items.length ≤ turn * lanes) : w.mark lanes turn = w.items.stop := by
  simp only [mark, Span.length] at enough ⊢
  omega

theorem mark_of_lt (inside : turn * lanes < w.items.length) :
    w.mark lanes turn = w.items.start + turn * lanes := by
  simp only [mark, Span.length] at inside ⊢
  omega

/-- A sub-wavefront lies between two marks. -/
theorem subwavefront_eq (small : lanes < countBound) :
    w.subwavefront turn lanes = ⟨w.mark lanes turn, w.mark lanes (turn + 1)⟩ := by
  simp only [subwavefront, mark, laneWord_of_lt small, Span.mk.injEq, true_and, Nat.succ_mul]
  omega

/-! ## Counts -/

theorem subwavefrontCount?_eq (positive : 0 < lanes) (small : lanes < countBound) :
    w.subwavefrontCount? lanes = some (max (ceilDiv w.items.length lanes) 1) := by
  simp only [subwavefrontCount?, laneWord_max_of_lt positive small]
  exact if_neg (Nat.ne_of_gt positive)

/-- The turns of a wavefront with items are those that begin before its end. -/
theorem lt_count_iff (positive : 0 < lanes) (small : lanes < countBound)
    (counted : w.subwavefrontCount? lanes = some count) (filled : 0 < w.items.length) :
    turn < count ↔ turn * lanes < w.items.length := by
  rw [subwavefrontCount?_eq positive small, Option.some.injEq] at counted
  have first : 0 < ceilDiv w.items.length lanes :=
    (NdRange.lt_ceilDiv_iff positive).mpr ((Nat.zero_mul lanes).symm ▸ filled)
  rw [← counted, Nat.max_eq_left first, NdRange.lt_ceilDiv_iff positive]

/-- No item is left after that many turns. -/
theorem length_le_of_count_le (positive : 0 < lanes) (small : lanes < countBound)
    (counted : w.subwavefrontCount? lanes = some count) (outside : count ≤ turn) :
    w.items.length ≤ turn * lanes := by
  rcases Nat.eq_zero_or_pos w.items.length with empty | filled
  · rw [empty]
    exact Nat.zero_le _
  · apply Nat.not_lt.mp
    intro inside
    exact Nat.not_lt.mpr outside ((lt_count_iff positive small counted filled).mpr inside)

/-- A wavefront with more than one turn has items. -/
theorem length_pos_of_lt_count (positive : 0 < lanes) (small : lanes < countBound)
    (counted : w.subwavefrontCount? lanes = some count) (several : 1 < count) :
    0 < w.items.length := by
  refine Nat.pos_of_ne_zero fun empty => ?_
  have none_left : ceilDiv 0 lanes = 0 := Nat.le_zero.mp (ceilDiv_le positive)
  rw [subwavefrontCount?_eq positive small, empty, none_left, Option.some.injEq] at counted
  omega

/-! ## The pieces -/

/-- The sub-wavefronts make up the wavefront. -/
structure CutInto (w : Wavefront) (lanes count : Nat) : Prop where
  positive : 0 < count
  /-- Each begins where the one before ends. -/
  first : (w.subwavefront 0 lanes).start = w.items.start
  next : ∀ turn, (w.subwavefront (turn + 1) lanes).start = (w.subwavefront turn lanes).stop
  last : (w.subwavefront (count - 1) lanes).stop = w.items.stop
  /-- Laid side by side they hold the items of the wavefront, in order. -/
  items : ∃ pieces, w.subwavefronts? lanes = some pieces ∧
    pieces.flatMap Span.toList = w.items.toList
  /-- Each but the last has an item for every lane. -/
  full : ∀ turn, turn + 1 < count → (w.subwavefront turn lanes).length = lanes
  rest : (w.subwavefront (count - 1) lanes).length ≤ lanes
  /-- The last has an item, unless the wavefront has none. -/
  filled : 0 < (w.subwavefront (count - 1) lanes).length ∨ w.items.length = 0
  /-- There are no items left for other turns. -/
  beyond : ∀ turn, count ≤ turn → (w.subwavefront turn lanes).isEmpty = true

theorem cutInto (ordered : w.items.start ≤ w.items.stop) (positive : 0 < lanes)
    (small : lanes < countBound) (counted : w.subwavefrontCount? lanes = some count) :
    w.CutInto lanes count := by
  have some_turn : 0 < count := subwavefrontCount?_pos counted
  have last : count - 1 + 1 = count := Nat.sub_add_cancel some_turn
  have stop : w.mark lanes count = w.items.stop :=
    mark_of_le (length_le_of_count_le positive small counted (Nat.le_refl _))
  have piece (turn : Nat) : w.subwavefront turn lanes =
      ⟨w.mark lanes turn, w.mark lanes (turn + 1)⟩ := subwavefront_eq small
  exact {
    positive := some_turn
    first := by rw [piece, mark_zero ordered]
    next turn := by rw [piece, piece]
    last := by rw [piece, last, stop]
    items := by
      refine ⟨_, by rw [subwavefronts?, counted]; rfl, ?_⟩
      have marks := NdRange.flatMap_range'_marks (w.mark lanes) (w.monotone_mark lanes) count
      rw [mark_zero ordered, stop] at marks
      rw [List.flatMap_map, Span.toList, Span.length, ← marks]
      exact List.flatMap_congr fun turn _ => by rw [piece]; rfl
    full turn inside := by
      have filled := length_pos_of_lt_count positive small counted (by omega)
      have later := (lt_count_iff positive small counted filled).mp inside
      have here := (lt_count_iff positive small counted filled).mp (Nat.lt_of_succ_lt inside)
      simp only [piece, Span.length, mark_of_lt later, mark_of_lt here, Nat.succ_mul]
      omega
    rest := w.length_subwavefront_le (count - 1) lanes
    filled := by
      rcases Nat.eq_zero_or_pos w.items.length with empty | filled
      · exact .inr empty
      · have here := (lt_count_iff positive small counted filled).mp
          (Nat.sub_lt some_turn Nat.one_pos)
        simp only [piece, last, stop, mark_of_lt here]
        simp only [Span.length] at here ⊢
        omega
    beyond turn outside := by
      rw [piece, mark_of_le (length_le_of_count_le positive small counted outside)]
      exact decide_eq_true (Nat.min_le_right _ _) }

end Wavefront

/-! ## Configurations -/

namespace DeviceConfig

variable {config : DeviceConfig}

theorem subwavefronts?_eq (valid : config.validate = .ok ())
    (small : config.wavefrontSize < countBound) :
    config.subwavefronts? = some (config.wavefrontSize / config.streamCores) := by
  obtain ⟨-, lanes, -⟩ := validate_eq_ok valid
  rw [subwavefronts?, laneWord_of_lt (streamCores_lt valid small), if_neg (Nat.ne_of_gt lanes)]

/-- A wavefront has no more sub-wavefronts than a full one, and a full one has them all. -/
theorem count_le_of_length_le {w : Wavefront} {turns : Nat} (valid : config.validate = .ok ())
    (small : config.wavefrontSize < countBound)
    (counted : w.subwavefrontCount? config.streamCores = some turns)
    (short : w.items.length ≤ config.wavefrontSize) :
    turns ≤ config.wavefrontSize / config.streamCores ∧
      (w.items.length = config.wavefrontSize →
        turns = config.wavefrontSize / config.streamCores) := by
  obtain ⟨-, lanes, positive, whole, -⟩ := validate_eq_ok valid
  have divides := Nat.dvd_of_mod_eq_zero whole
  have some_turn : 0 < config.wavefrontSize / config.streamCores :=
    Nat.div_pos (Nat.le_of_dvd positive divides) lanes
  have exact_quotient : ceilDiv config.wavefrontSize config.streamCores =
      config.wavefrontSize / config.streamCores := by rw [ceilDiv_eq lanes, if_pos whole]
  have fewer : ceilDiv w.items.length config.streamCores ≤
      ceilDiv config.wavefrontSize config.streamCores :=
    Nat.div_le_div_right (by omega)
  rw [Wavefront.subwavefrontCount?_eq lanes (streamCores_lt valid small), Option.some.injEq]
    at counted
  rw [exact_quotient] at fewer
  refine ⟨by omega, fun full => ?_⟩
  rw [full, exact_quotient] at counted
  omega

end DeviceConfig

/-- A wavefront whose sums fit into words is made up by as many sub-wavefronts as are counted, and
words hold the bounds of each. The lanes of a valid configuration are a word, and whole turns of
them make up a full wavefront; a wavefront that is not longer than a full one has as many turns at
most, and a full one has that many. -/
theorem Wavefront.turns_make_up_wavefront :
    (∀ (w : Wavefront) (lanes : Nat), w.items.start ≤ w.items.stop → 1 ≤ lanes →
      w.items.stop + lanes < countBound →
      ∃ count, w.subwavefrontCount? lanes = some count ∧ w.CutInto lanes count ∧
        ∀ turn, w.items.start + turn * lanes < countBound →
          @subwavefront? .words w turn lanes = some (w.subwavefront turn lanes)) ∧
    ∀ config : DeviceConfig, config.wavefrontSize < countBound → config.validate = .ok () →
      laneWord config.streamCores = config.streamCores ∧
      ∃ count, config.subwavefronts? = some count ∧
        count * config.streamCores = config.wavefrontSize ∧
        ∀ w : Wavefront, w.items.length ≤ config.wavefrontSize →
          ∃ turns, w.subwavefrontCount? config.streamCores = some turns ∧ turns ≤ count ∧
            (w.items.length = config.wavefrontSize → turns = count) := by
  constructor
  · intro w lanes ordered positive fits
    have small : lanes < countBound := by omega
    have counted := subwavefrontCount?_eq (w := w) positive small
    have width := laneWord_of_lt small
    refine ⟨_, counted, cutInto ordered positive small counted, fun turn start => ?_⟩
    refine @subwavefront?_of_lt .words _ _ _ (width.symm ▸ start) ?_
    rw [subwavefront_eq small, width]
    exact (Nat.add_le_add_right (Nat.min_le_right ..) lanes).trans_lt fits
  · intro config small valid
    obtain ⟨-, lanes, -, whole, -⟩ := DeviceConfig.validate_eq_ok valid
    have fits := DeviceConfig.streamCores_lt valid small
    refine ⟨laneWord_of_lt fits, _, DeviceConfig.subwavefronts?_eq valid small,
      Nat.div_mul_cancel (Nat.dvd_of_mod_eq_zero whole), fun w short => ?_⟩
    have counted := subwavefrontCount?_eq (w := w) lanes fits
    exact ⟨_, counted, DeviceConfig.count_le_of_length_le valid small counted short⟩

/-- A wavefront of 36 items on 16 lanes has three turns, the last one with four items. A device that
nobody has configured otherwise has 16 lanes, and a full wavefront four turns. -/
theorem Wavefront.turns_make_up_wavefront_of_36_items :
    ∃ w : Wavefront, w.items = ⟨64, 100⟩ ∧ w.CutInto 16 3 ∧
      w.subwavefronts? 16 = some [⟨64, 80⟩, ⟨80, 96⟩, ⟨96, 100⟩] ∧
      @subwavefront? .words w 2 16 = some (w.subwavefront 2 16) ∧
      ∃ count, ({} : DeviceConfig).subwavefronts? = some count ∧ count * 16 = 64 ∧ 3 ≤ count := by
  obtain ⟨count, counted, pieces, words⟩ := turns_make_up_wavefront.1
    { id := 1, items := ⟨64, 100⟩ } 16 (by decide) (by decide) (by decide)
  obtain rfl : count = 3 := Option.some.inj (counted.symm.trans rfl)
  obtain ⟨-, all, configured, whole, shorter⟩ := turns_make_up_wavefront.2 {} (by decide) rfl
  obtain ⟨turns, counted', fewer, -⟩ := shorter { id := 1, items := ⟨64, 100⟩ } (by decide)
  obtain rfl : turns = 3 := Option.some.inj (counted'.symm.trans counted)
  exact ⟨_, rfl, pieces, rfl, words 2 (by decide), all, configured, whole, fewer⟩

end Accelerator
