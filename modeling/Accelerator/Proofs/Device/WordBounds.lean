import Accelerator.Proofs.Device.Fresh
import Accelerator.Proofs.Device.Runs
import Accelerator.Proofs.Subwavefronts

/-!
# Turns that words can hold

A launch is accepted only if its items can be counted with words. That does not mean that words can
hold every number that comes up when its items are executed: where a turn ends is not computed as
the end of a wavefront is, but added up first and cut off then, so that it may lie almost a whole
turn behind the last item of all.

Whole turns make up a wavefront, so that the turns of a group cut it into pieces of as many items as
there are lanes, whatever the wavefronts are (`NdRange.forall_takesTurn_iff`). The largest numbers
that come up are therefore those of the last piece and of the first one, and they decide whether
words can hold all of them (`NdRange.TurnsInWords`).
-/

namespace Accelerator

namespace Wavefront

variable {w : Wavefront} {lanes turn : Nat}

/-! ## Turns of a wavefront -/

/-- A turn that begins inside of the wavefront is cut off at its end only. -/
theorem subwavefront_of_lt (small : lanes < countBound)
    (inside : w.items.start + turn * lanes < w.items.stop) :
    w.subwavefront turn lanes = ⟨w.items.start + turn * lanes,
      min (w.items.start + turn * lanes + lanes) w.items.stop⟩ := by
  simp only [subwavefront, laneWord_of_lt small, Nat.min_eq_left (Nat.le_of_lt inside)]

/-- Words hold the bounds of such a turn if they hold where it ends. -/
theorem subwavefront?_words_of_lt (small : lanes < countBound) (stop : w.items.stop < countBound)
    (inside : w.items.start + turn * lanes < w.items.stop) :
    @subwavefront? .words w turn lanes =
      if (w.subwavefront turn lanes).start + lanes < countBound then some (w.subwavefront turn lanes)
      else none := by
  rw [subwavefront?_words, laneWord_of_lt small]
  simp only [inside.trans stop, true_and]

/-- As many bytes are touched as words for the items. -/
theorem forall_bytes_lt_iff {items : Span} (filled : items.isEmpty = false) {bound : Nat} :
    (∀ base kind request, w.request? base kind items = some request → request.bytes < bound) ↔
      items.length * wordSize < bound := by
  constructor
  · intro all
    have asked : w.request? 0 .load items =
        some ⟨0 + w.globalId items.start * wordSize, items.length * wordSize, .load⟩ := by
      simp only [request?, InstKind.access?, filled]
      rfl
    exact all 0 .load _ asked
  · intro fits base kind request asked
    unfold request? at asked
    split at asked
    · cases asked
    · rw [filled] at asked
      cases asked
      exact fits

end Wavefront

namespace NdRange

/-- One of the launch's wavefronts has the turn. -/
def TakesTurn (nd : NdRange) (lanes : Nat) (w : Wavefront) (turn : Nat) : Prop :=
  w ∈ nd.wavefronts ∧ ∃ turns, w.subwavefrontCount? lanes = some turns ∧ turn < turns

/-- The items of a group that go together, numbered from its first item on: a turn's worth, or what
is left of it. -/
def piece (lanes size place : Nat) : Span :=
  ⟨place * lanes, min (place * lanes + lanes) size⟩

variable {launch id : Nat} {kernelName : String} {globalSize localSize : Dim3}
  {wavefrontSize count size lanes perWavefront group index turn place : Nat} {w : Wavefront}

/-! ## Turns and pieces -/

theorem takesTurn_cut_iff (sized : 0 < wavefrontSize) (positive : 0 < lanes)
    (small : lanes < countBound) :
    (cut launch id kernelName globalSize localSize wavefrontSize count size).TakesTurn lanes w
        turn ↔
      ∃ group index, group < count ∧ index < ceilDiv size wavefrontSize ∧
        w = wavefrontAt wavefrontSize size group index ∧ turn * lanes < w.items.length := by
  have counted := Wavefront.subwavefrontCount?_eq (w := w) positive small
  constructor
  · intro takes
    obtain ⟨member, turns, counted, inside⟩ := takes
    obtain ⟨i, found⟩ := Array.getElem?_of_mem member
    obtain ⟨group, index, below, within, -, rfl⟩ := getElem?_wavefronts_cut found
    have filled := (length_wavefrontAt group sized within).1
    exact ⟨group, index, below, within, rfl,
      (Wavefront.lt_count_iff positive small counted filled).mp inside⟩
  · intro given
    obtain ⟨group, index, below, within, rfl, inside⟩ := given
    have filled := (length_wavefrontAt group sized within).1
    exact ⟨Array.mem_of_getElem? (wavefronts_cut_of_lt below within), _, counted,
      (Wavefront.lt_count_iff positive small counted filled).mpr inside⟩

/-- Where a turn begins, seen from the beginning of the group. -/
theorem mark_wavefrontAt (few : turn ≤ perWavefront) :
    (wavefrontAt (perWavefront * lanes) size group index).mark lanes turn =
      min ((index * perWavefront + turn) * lanes) size := by
  have whole := Nat.mul_le_mul_right lanes few
  simp only [Wavefront.mark, wavefrontAt, Nat.add_mul, Nat.mul_assoc]
  omega

/-- The turns that begin inside of a wavefront begin inside of its group. -/
theorem lt_length_wavefrontAt_iff :
    turn * lanes < (wavefrontAt (perWavefront * lanes) size group index).items.length ↔
      turn * lanes < perWavefront * lanes ∧ (index * perWavefront + turn) * lanes < size := by
  simp only [wavefrontAt, Span.length, Nat.add_mul, Nat.mul_assoc]
  omega

/-- A turn of a wavefront is a piece of its group. -/
theorem subwavefront_wavefrontAt (small : lanes < countBound) (few : turn < perWavefront)
    (inside : (index * perWavefront + turn) * lanes < size) :
    (wavefrontAt (perWavefront * lanes) size group index).subwavefront turn lanes =
      piece lanes size (index * perWavefront + turn) := by
  rw [Wavefront.subwavefront_eq small, mark_wavefrontAt (Nat.le_of_lt few), mark_wavefrontAt few,
    Nat.min_eq_left (Nat.le_of_lt inside), Nat.add_succ, Nat.succ_mul]
  rfl

section Taken

variable (sized : 0 < wavefrontSize) (positive : 0 < lanes) (small : lanes < countBound)
  (takes : (cut launch id kernelName globalSize localSize wavefrontSize count size).TakesTurn
    lanes w turn)
include sized positive small takes

/-- A turn begins inside of its wavefront, and that ends inside of its group. -/
theorem bounds_of_takesTurn : w.items.start + turn * lanes < w.items.stop ∧ w.items.stop ≤ size ∧
    w.base + size ≤ count * size := by
  obtain ⟨group, index, below, -, rfl, inside⟩ := (takesTurn_cut_iff sized positive small).mp takes
  have groups := Nat.mul_le_mul_right size below
  simp only [wavefrontAt, Span.length, Nat.succ_mul] at inside groups ⊢
  omega

/-- A turn has an item. -/
theorem isEmpty_of_takesTurn : (w.subwavefront turn lanes).isEmpty = false := by
  have inside := (bounds_of_takesTurn sized positive small takes).1
  rw [Wavefront.subwavefront_of_lt small inside]
  exact decide_eq_false (by dsimp only; omega)

end Taken

section Pieces

variable (positive : 0 < lanes) (small : lanes < countBound) (some_turn : 0 < perWavefront)
include positive small some_turn

/-- Every turn of a launch is a piece of a group. -/
theorem exists_piece_of_takesTurn (takes : (cut launch id kernelName globalSize localSize
      (perWavefront * lanes) count size).TakesTurn lanes w turn) :
    ∃ place < ceilDiv size lanes, w.subwavefront turn lanes = piece lanes size place := by
  have sized := Nat.mul_pos some_turn positive
  obtain ⟨group, index, -, -, rfl, inside⟩ := (takesTurn_cut_iff sized positive small).mp takes
  obtain ⟨few, inside⟩ := lt_length_wavefrontAt_iff.mp inside
  exact ⟨index * perWavefront + turn, (lt_ceilDiv_iff positive).mpr inside,
    subwavefront_wavefrontAt small (Nat.lt_of_mul_lt_mul_right few) inside⟩

/-- Every piece of a group is a turn of one of its wavefronts. -/
theorem exists_turn_of_lt (group : Nat) (within : place < ceilDiv size lanes) :
    ∃ index turn, index < ceilDiv size (perWavefront * lanes) ∧
      turn * lanes < (wavefrontAt (perWavefront * lanes) size group index).items.length ∧
      (wavefrontAt (perWavefront * lanes) size group index).subwavefront turn lanes =
        piece lanes size place := by
  have few := Nat.mod_lt place some_turn
  have parts := Nat.div_add_mod' place perWavefront
  have inside := (lt_ceilDiv_iff positive).mp within
  rw [← parts] at inside ⊢
  refine ⟨place / perWavefront, place % perWavefront, ?_,
    lt_length_wavefrontAt_iff.mpr ⟨Nat.mul_lt_mul_of_pos_right few positive, inside⟩,
    subwavefront_wavefrontAt small few inside⟩
  rw [lt_ceilDiv_iff (Nat.mul_pos some_turn positive), ← Nat.mul_assoc]
  rw [Nat.add_mul] at inside
  omega

/-- What is true of all turns of a launch is what is true of the pieces of a group. -/
theorem forall_takesTurn_iff (some_group : 0 < count) (good : Span → Prop) :
    (∀ w turn, (cut launch id kernelName globalSize localSize (perWavefront * lanes) count
        size).TakesTurn lanes w turn → good (w.subwavefront turn lanes)) ↔
      ∀ place < ceilDiv size lanes, good (piece lanes size place) := by
  constructor
  · intro all place within
    obtain ⟨index, turn, listed, inside, same⟩ :=
      exists_turn_of_lt positive small some_turn 0 within
    exact same ▸ all _ turn ((takesTurn_cut_iff (Nat.mul_pos some_turn positive) positive small).mpr
      ⟨0, index, some_group, listed, rfl, inside⟩)
  · intro all w turn takes
    obtain ⟨place, within, same⟩ := exists_piece_of_takesTurn positive small some_turn takes
    exact same ▸ all place within

end Pieces

/-! ## The largest numbers -/

/-- The last piece ends behind all others. -/
theorem forall_ends_lt_iff (positive : 0 < lanes) (filled : 0 < size) {bound : Nat} :
    (∀ place < ceilDiv size lanes, (piece lanes size place).start + lanes < bound) ↔
      ceilDiv size lanes * lanes < bound := by
  have some_piece : 0 < ceilDiv size lanes :=
    (lt_ceilDiv_iff positive).mpr ((Nat.zero_mul lanes).symm ▸ filled)
  simp only [piece, ← Nat.succ_mul]
  constructor
  · intro all
    have last := all (ceilDiv size lanes - 1) (Nat.sub_lt some_piece Nat.one_pos)
    rwa [Nat.succ_eq_add_one, Nat.sub_add_cancel some_piece] at last
  · intro last place within
    exact (Nat.mul_le_mul_right lanes within).trans_lt last

/-- The first piece is as long as any. -/
theorem forall_lengths_lt_iff (positive : 0 < lanes) (filled : 0 < size) {width bound : Nat} :
    (∀ place < ceilDiv size lanes, (piece lanes size place).length * width < bound) ↔
      min lanes size * width < bound := by
  constructor
  · intro all
    have first := all 0 ((lt_ceilDiv_iff positive).mpr ((Nat.zero_mul lanes).symm ▸ filled))
    simpa only [piece, Span.length, Nat.zero_mul, Nat.zero_add, Nat.sub_zero] using first
  · intro first place _
    have shorter : (piece lanes size place).length ≤ min lanes size := by
      simp only [piece, Span.length]
      omega
    exact (Nat.mul_le_mul_right width shorter).trans_lt first

end NdRange

/-! ## Launches on a device -/

/-- Which of the numbers that are computed for the turns of a launch words can hold. -/
structure NdRange.TurnsInWords (nd : NdRange) (lanes : Nat) : Prop where
  /-- Where a turn begins is a word. -/
  starts : ∀ w turn, nd.TakesTurn lanes w turn →
    turn * lanes < countBound ∧ w.items.start + turn * lanes < countBound
  /-- The number of an item is a word. -/
  items : ∀ w turn, nd.TakesTurn lanes w turn → ∀ item ∈ w.itemsAt turn lanes, item < countBound
  /-- Where a turn ends, before that is cut off, is a word if the end of the last turn of a group
  is. -/
  ends : (∀ w turn, nd.TakesTurn lanes w turn →
      (w.subwavefront turn lanes).start + lanes < countBound) ↔
    ceilDiv nd.groupSize lanes * lanes < countBound
  /-- A turn has an item, and words give its items if they hold where it ends. -/
  turns : ∀ w turn, nd.TakesTurn lanes w turn → (w.subwavefront turn lanes).isEmpty = false ∧
    @Wavefront.subwavefront? .words w turn lanes =
      if (w.subwavefront turn lanes).start + lanes < countBound then
        some (w.subwavefront turn lanes)
      else none
  /-- How many bytes the items of a turn touch is a word if it is for the first turn of a group. -/
  bytes : (∀ w turn, nd.TakesTurn lanes w turn → ∀ base kind request,
      w.request? base kind (w.subwavefront turn lanes) = some request →
        request.bytes < countBound) ↔
    min lanes nd.groupSize * wordSize < countBound

theorem NdRange.turnsInWords_cut {launch id : Nat} {kernelName : String}
    {globalSize localSize : Dim3} {perWavefront lanes : Nat}
    (shape : Divisible globalSize localSize (perWavefront * lanes))
    (small : lanes < countBound) :
    (cut launch id kernelName globalSize localSize (perWavefront * lanes)
      (globalSize.div localSize).volume localSize.volume).TurnsInWords lanes := by
  have sized := Nat.pos_of_ne_zero shape.wavefront
  have some_turn := Nat.pos_of_mul_pos_right sized
  have positive := Nat.pos_of_mul_pos_left sized
  have few := shape.counts_lt.2
  have counted := shape.counted
  rw [shape.volume_eq] at counted
  exact {
    starts w turn takes := by
      obtain ⟨inside, stop, -⟩ := bounds_of_takesTurn sized positive small takes
      exact ⟨by omega, by omega⟩
    items w turn takes item member := by
      obtain ⟨-, stop, base⟩ := bounds_of_takesTurn sized positive small takes
      obtain ⟨i, rfl, below, -⟩ := (Wavefront.mem_itemsAt small).mp member
      omega
    ends := (forall_takesTurn_iff positive small some_turn shape.grid_pos
      fun items => items.start + lanes < countBound).trans
        (forall_ends_lt_iff positive shape.size_pos)
    turns w turn takes := by
      obtain ⟨inside, stop, -⟩ := bounds_of_takesTurn sized positive small takes
      exact ⟨isEmpty_of_takesTurn sized positive small takes,
        Wavefront.subwavefront?_words_of_lt small (stop.trans_lt few) inside⟩
    bytes := by
      apply Iff.trans (forall_congr' fun w => forall_congr' fun turn => forall_congr' fun takes =>
        Wavefront.forall_bytes_lt_iff (isEmpty_of_takesTurn sized positive small takes))
      exact (forall_takesTurn_iff positive small some_turn shape.grid_pos
        fun items => items.length * wordSize < countBound).trans
          (forall_lengths_lt_iff positive shape.size_pos) }

/-- A launch that is let in by a device that has none fits. -/
theorem Job.fits_of_begin {ι μ π : Type} {job : Job ι μ π} (free : job.device.active = none)
    (admitted : (begin.outcome job).1 = .ok ()) : job.Fits := by
  rcases begin_cases job with ⟨e, refused⟩ | ⟨-, active, under_way, -⟩ | ⟨-, -, fits⟩
  · rw [refused] at admitted
    cases admitted
  · cases free.symm.trans under_way
  · exact fits

/-- Words hold where a turn of an accepted launch begins, and the numbers of its items. Whether they
hold where all the turns end, before that is cut off, and how many bytes their items touch, depends
on the lanes and on the size of a group. -/
theorem Job.turnsInWords {ι μ π : Type} {device : Device ι μ π}
    (valid : device.config.validate = .ok ()) (small : device.config.wavefrontSize < countBound)
    (free : device.active = none) {launch id : Nat} {kernelName : String}
    {globalSize localSize : Dim3} {wavefrontSize : Nat} {nd : NdRange}
    (made : NdRange.create launch id kernelName globalSize localSize wavefrontSize = .ok nd)
    (admitted : (begin.outcome (⟨device, nd⟩ : Job ι μ π)).1 = .ok ()) :
    nd.TurnsInWords device.config.streamCores := by
  have shape := NdRange.divisible_of_create made
  rw [NdRange.create_of_divisible shape, Except.ok.injEq] at made
  subst made
  have fits : wavefrontSize = device.config.wavefrontSize := (fits_of_begin free admitted).2
  -- the wavefronts of the launch are whole turns of the device
  obtain ⟨-, -, -, whole, -⟩ := DeviceConfig.validate_eq_ok valid
  obtain ⟨perWavefront, rfl⟩ := Nat.dvd_of_mod_eq_zero (fits ▸ whole :
    wavefrontSize % device.config.streamCores = 0)
  rw [Nat.mul_comm] at shape ⊢
  exact NdRange.turnsInWords_cut shape (DeviceConfig.streamCores_lt valid small)

end Accelerator
