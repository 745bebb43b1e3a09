import Accelerator.Proofs.Launch
import Mathlib.Data.List.Nodup

/-!
# Where an item runs

A launch is cut three times: into groups, groups into wavefronts, and wavefronts into sub-wavefronts.
The last piece of a group and of a wavefront may be short. All the same an item is in exactly one
piece, and its number tells in which: a quotient for each cut, and the remainder for the next one.
-/

namespace Accelerator

/-! ## Lane counts as words -/

/-- A lane count that is a word is kept as it is. -/
theorem laneWord_of_lt {lanes : Nat} (small : lanes < countBound) : laneWord lanes = lanes :=
  Nat.mod_eq_of_lt small

theorem laneWord_max_of_lt {lanes : Nat} (positive : 0 < lanes) (small : lanes < countBound) :
    laneWord (max lanes 1) = lanes := by
  rw [Nat.max_eq_left positive, laneWord_of_lt small]

/-! ## Sub-wavefronts -/

namespace Wavefront

variable {w : Wavefront} {lanes turn item : Nat}

/-- No sub-wavefront has more items than there are lanes. -/
theorem length_subwavefront_le (w : Wavefront) (turn lanes : Nat) :
    (w.subwavefront turn lanes).length ≤ lanes := by
  have word : laneWord lanes ≤ lanes := Nat.mod_le ..
  simp only [subwavefront, Span.length]
  omega

/-- The items of a turn, by their global numbers. -/
def itemsAt (w : Wavefront) (turn lanes : Nat) : List Nat :=
  (w.subwavefront turn lanes).toList.map w.globalId

/-- The items of a turn follow those of the turns before, up to the end of the wavefront. -/
theorem mem_itemsAt (small : lanes < countBound) :
    item ∈ w.itemsAt turn lanes ↔ ∃ i, item = w.base + i ∧ i < w.items.stop ∧
      w.items.start + turn * lanes ≤ i ∧ i < w.items.start + turn * lanes + lanes := by
  simp only [itemsAt, List.mem_map, Span.toList, List.mem_range'_1, globalId, subwavefront,
    laneWord_of_lt small, Span.length]
  constructor
  · rintro ⟨i, ⟨low, high⟩, rfl⟩
    exact ⟨i, rfl, by omega⟩
  · rintro ⟨i, rfl, inside, low, high⟩
    exact ⟨i, by omega, rfl⟩

theorem nodup_itemsAt (w : Wavefront) (turn lanes : Nat) : (w.itemsAt turn lanes).Nodup :=
  List.Nodup.map (fun _ _ same => Nat.add_left_cancel same) List.nodup_range'

/-- There is a turn for every item. -/
theorem lt_of_subwavefrontCount? {turns : Nat} (small : lanes < countBound) (positive : 0 < lanes)
    (counted : w.subwavefrontCount? lanes = some turns)
    (bound : turn * lanes < w.items.stop - w.items.start) : turn < turns := by
  simp only [subwavefrontCount?, laneWord_max_of_lt positive small, Option.ite_none_left_eq_some,
    Option.some.injEq] at counted
  obtain ⟨-, rfl⟩ := counted
  have below : turn + 1 ≤ ceilDiv w.items.length lanes := by
    rw [ceilDiv, Nat.le_div_iff_mul_le positive, Nat.add_mul, Nat.one_mul, Span.length]
    omega
  omega

end Wavefront

namespace NdRange

/-! ## Wavefronts -/

/-- A number between two multiples has the lower one for its quotient. -/
theorem div_mod_of_between {n d q : Nat} (low : q * d ≤ n) (high : n < q * d + d) :
    n / d = q ∧ n % d = n - q * d := by
  obtain ⟨r, rfl⟩ := Nat.exists_eq_add_of_le low
  have small : r < d := by omega
  have positive : 0 < d := by omega
  rw [Nat.mul_comm q d, Nat.mul_add_div positive, Nat.mul_add_mod, Nat.div_eq_of_lt small,
    Nat.mod_eq_of_lt small]
  omega

variable {launch id : Nat} {kernelName : String} {globalSize localSize : Dim3}
  {wavefrontSize count size : Nat}

/-- What is cut off for a wavefront. -/
theorem bounds_of_getElem? {group index : Nat} {w : Wavefront}
    (here : (groupWavefronts wavefrontSize size (ceilDiv size wavefrontSize) group)[index]? =
      some w) :
    w.base = group * size ∧ w.items.start = index * wavefrontSize ∧
      w.items.stop = min (index * wavefrontSize + wavefrontSize) size := by
  simp only [groupWavefronts, List.getElem?_map, Option.map_eq_some_iff] at here
  obtain ⟨number, here, rfl⟩ := here
  obtain ⟨-, rfl⟩ := List.getElem?_eq_some_iff.mp here
  rw [List.getElem_range]
  exact ⟨rfl, rfl, rfl⟩

/-- The number of an item tells its group, its wavefront and its turn. -/
theorem mem_itemsAt_iff {group index turn lanes item : Nat} {w : Wavefront} (positive : 0 < size)
    (sized : 0 < wavefrontSize) (some_lanes : 0 < lanes) (small : lanes < countBound)
    (here : (groupWavefronts wavefrontSize size (ceilDiv size wavefrontSize) group)[index]? =
      some w) :
    item ∈ w.itemsAt turn lanes ↔ item / size = group ∧ item % size / wavefrontSize = index ∧
      item % size % wavefrontSize / lanes = turn := by
  obtain ⟨base, start, stop⟩ := bounds_of_getElem? here
  rw [Wavefront.mem_itemsAt small, base, start, stop]
  constructor
  · rintro ⟨i, rfl, below, low, high⟩
    obtain ⟨group_eq, rest⟩ : (group * size + i) / size = group ∧
        (group * size + i) % size = group * size + i - group * size :=
      div_mod_of_between (by omega) (by omega)
    obtain ⟨index_eq, rest'⟩ : i / wavefrontSize = index ∧
        i % wavefrontSize = i - index * wavefrontSize := div_mod_of_between (by omega) (by omega)
    obtain ⟨turn_eq, -⟩ : (i - index * wavefrontSize) / lanes = turn ∧
        (i - index * wavefrontSize) % lanes = i - index * wavefrontSize - turn * lanes :=
      div_mod_of_between (by omega) (by omega)
    rw [Nat.add_sub_cancel_left] at rest
    exact ⟨group_eq, by rw [rest, index_eq], by rw [rest, rest', turn_eq]⟩
  · rintro ⟨rfl, rfl, rfl⟩
    have whole := Nat.div_add_mod' item size
    have part := Nat.div_add_mod' (item % size) wavefrontSize
    have piece := Nat.div_add_mod' (item % size % wavefrontSize) lanes
    have below := Nat.mod_lt item positive
    have below' := Nat.mod_lt (item % size) sized
    have below'' := Nat.mod_lt (item % size % wavefrontSize) some_lanes
    exact ⟨item % size, by omega, by omega, by omega, by omega⟩

/-- The wavefront of an item has a turn for it. -/
theorem turn_lt_of_item {lanes item turns : Nat} {w : Wavefront} (positive : 0 < size)
    (sized : 0 < wavefrontSize) (some_lanes : 0 < lanes) (small : lanes < countBound)
    (here : (groupWavefronts wavefrontSize size (ceilDiv size wavefrontSize)
      (item / size))[item % size / wavefrontSize]? = some w)
    (counted : w.subwavefrontCount? lanes = some turns) :
    item % size % wavefrontSize / lanes < turns := by
  refine Wavefront.lt_of_subwavefrontCount? small some_lanes counted ?_
  obtain ⟨-, start, stop⟩ := bounds_of_getElem? here
  have part := Nat.div_add_mod' (item % size) wavefrontSize
  have piece := Nat.div_add_mod' (item % size % wavefrontSize) lanes
  have below := Nat.mod_lt item positive
  have below' := Nat.mod_lt (item % size) sized
  rw [start, stop]
  omega

/-- There is a wavefront for every item of a group. -/
theorem wavefront_lt_of_item {item : Nat} (positive : 0 < size) (sized : 0 < wavefrontSize) :
    item % size / wavefrontSize < ceilDiv size wavefrontSize := by
  have below := Nat.mod_lt item positive
  have part := Nat.div_add_mod' (item % size) wavefrontSize
  rw [ceilDiv, Nat.lt_iff_add_one_le, Nat.le_div_iff_mul_le sized, Nat.add_mul, Nat.one_mul]
  omega

/-! ## Groups -/

theorem volume_of_checkSize {which : String} {extent : Dim3} {n : Nat}
    (checked : checkSize which extent = .ok n) : n = extent.volume := by
  unfold checkSize at checked
  rcases sized : extent.size with _ | m
  · rw [sized] at checked
    cases checked
  · rw [sized] at checked
    cases checked
    simp only [Dim3.size, countMul?, Option.bind_eq_bind, Option.bind_eq_some_iff,
      Option.ite_none_right_eq_some, Option.some.injEq] at sized
    obtain ⟨_, ⟨-, rfl⟩, -, rfl⟩ := sized
    rfl

theorem of_checkAxis {axis : String} {whole part : Nat}
    (checked : checkAxis (axis, whole, part) = .ok ()) : 0 < whole ∧ 0 < part ∧ part ∣ whole := by
  simp only [checkAxis] at checked
  by_cases zero : whole = 0 ∨ part = 0
  · rw [if_pos zero] at checked
    cases checked
  · rw [if_neg zero] at checked
    by_cases rest : whole % part = 0
    · exact ⟨by omega, by omega, Nat.dvd_of_mod_eq_zero rest⟩
    · rw [if_pos rest] at checked
      cases checked

/-- A box whose extents are multiples of those of another one is filled by boxes like that. None of
them is empty. -/
theorem volume_of_checkAxis {globalSize localSize : Dim3}
    (checked : (axes globalSize localSize).forM checkAxis = .ok ()) :
    0 < globalSize.volume ∧ 0 < localSize.volume ∧ localSize.volume ∣ globalSize.volume := by
  rcases x : checkAxis ("x", globalSize.x, localSize.x) with e | _
  · simp [axes, x, bind, Except.bind] at checked
  rcases y : checkAxis ("y", globalSize.y, localSize.y) with e | _
  · simp [axes, x, y, bind, Except.bind] at checked
  rcases z : checkAxis ("z", globalSize.z, localSize.z) with e | _
  · simp [axes, x, y, z, bind, Except.bind] at checked
  obtain ⟨width, width', wide⟩ := of_checkAxis x
  obtain ⟨height, height', high⟩ := of_checkAxis y
  obtain ⟨depth, depth', deep⟩ := of_checkAxis z
  exact ⟨Nat.mul_pos (Nat.mul_pos width height) depth,
    Nat.mul_pos (Nat.mul_pos width' height') depth',
    Nat.mul_dvd_mul (Nat.mul_dvd_mul wide high) deep⟩

/-- Groups fill a launch without a rest, and there is at least one. -/
theorem itemCount_of_create {nd : NdRange}
    (made : create launch id kernelName globalSize localSize wavefrontSize = .ok nd) :
    ∃ count size, 0 < wavefrontSize ∧ 0 < count ∧ 0 < size ∧ nd.itemCount = count * size ∧
      nd = cut launch id kernelName globalSize localSize wavefrontSize count size := by
  obtain ⟨sized, checked, itemCount, size, whole, part, rfl⟩ := create_eq_ok made
  obtain ⟨some_items, positive, divides⟩ := volume_of_checkAxis checked
  rw [← volume_of_checkSize part] at positive divides
  rw [← volume_of_checkSize whole] at some_items divides
  refine ⟨_, size, Nat.pos_of_ne_zero sized,
    Nat.div_pos (Nat.le_of_dvd some_items divides) positive, positive, ?_, rfl⟩
  rw [Nat.div_mul_cancel divides]
  exact (volume_of_checkSize whole).symm

end NdRange

end Accelerator
