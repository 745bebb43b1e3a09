import Accelerator.Proofs.Items
import Accelerator.Proofs.Traversal
import Mathlib.Order.Monotone.Basic
import Mathlib.Order.Nat

/-!
# How a launch is cut up

A launch is accepted when it has a shape that can be cut (`NdRange.Divisible`), and then its tables
lay out the index space without a gap or an overlap (`NdRange.LaidOut`): the wavefronts of a group
stand beside each other in the table, the items of the table follow one another, and every place of
the grid is the place of one group.

Item counts are 32-bit words, and the tables are made of sums and products of them. The cut is
therefore stated a second time with words (`NdRange.countedCut?`): a product that is no item count
has no value, a sum is cut off at the largest item count, and of a table index only the low bits
count. Nothing of that ever happens to a launch that is accepted.
-/

namespace Accelerator

/-! ## Item counts as words -/

/-- The sum of two item counts, cut off at the largest one. -/
def countAdd (a b : Nat) : Nat := min (a + b) (countBound - 1)

/-- A table index as an item count: only its low bits count. -/
def countWord (n : Nat) : Nat := n % countBound

/-- A quotient of item counts, rounded up. There is none for parts of size zero, and none when the
quotient that is rounded down is the largest item count already. -/
def countCeilDiv? (total part : Nat) : Option Nat :=
  if part = 0 then none
  else if total % part = 0 then some (total / part)
  else if total / part + 1 < countBound then some (total / part + 1) else none

theorem countMul?_of_lt {a b : Nat} (small : a * b < countBound) :
    countMul? a b = some (a * b) := if_pos small

theorem countWord_of_lt {n : Nat} (small : n < countBound) : countWord n = n :=
  Nat.mod_eq_of_lt small

/-- A quotient rounded up is the one rounded down, or the next number if there is a rest. -/
theorem ceilDiv_eq {total part : Nat} (positive : 0 < part) :
    ceilDiv total part = if total % part = 0 then total / part else total / part + 1 := by
  have whole := Nat.div_add_mod total part
  have below := Nat.mod_lt total positive
  rw [ceilDiv, Nat.div_eq_iff positive]
  split
  next even =>
    rw [even, Nat.mul_comm] at whole
    exact ⟨by omega, by omega⟩
  next rest =>
    rw [Nat.mul_comm] at whole
    rw [Nat.add_mul, Nat.one_mul]
    exact ⟨by omega, by omega⟩

/-- No more parts of one item or more are needed than there are items. -/
theorem ceilDiv_le {total part : Nat} (positive : 0 < part) : ceilDiv total part ≤ total := by
  rw [ceilDiv, Nat.div_le_iff_le_mul positive]
  have enough : total ≤ total * part := Nat.le_mul_of_pos_right total positive
  omega

theorem countCeilDiv?_of_lt {total part : Nat} (positive : 0 < part) (small : total < countBound) :
    countCeilDiv? total part = some (ceilDiv total part) := by
  have le : ceilDiv total part ≤ total := ceilDiv_le positive
  rw [ceilDiv_eq positive] at le ⊢
  rw [countCeilDiv?, if_neg (by omega)]
  split
  next even => rfl
  next rest =>
    rw [if_neg rest] at le
    exact if_pos (by omega)

/-! ## Places of a grid -/

namespace Dim3

/-- A point of the box. -/
structure Inside (p extent : Dim3) : Prop where
  x : p.x < extent.x
  y : p.y < extent.y
  z : p.z < extent.z

/-- The position of a point in the row of all points, `x` fastest. -/
def flat (extent p : Dim3) : Nat := p.x + extent.x * (p.y + extent.y * p.z)

/-- As `ofFlat?`, where the number of points of a plane is an item count as well. -/
def countedOfFlat? (extent : Dim3) (flat : Nat) : Option Dim3 := do
  let plane ← countMul? extent.x extent.y
  if extent.x = 0 ∨ extent.y = 0 ∨ plane = 0 then none
  else some ⟨flat % extent.x, flat / extent.x % extent.y, flat / plane⟩

variable {extent p : Dim3} {n : Nat}

/-- A position is that of the point read back from it. -/
theorem flat_ofFlat (extent : Dim3) (n : Nat) : extent.flat (extent.ofFlat n) = n := by
  rw [flat, ofFlat, ← Nat.div_div_eq_div_mul, Nat.mod_add_div, Nat.mod_add_div]

theorem inside_ofFlat (bound : n < extent.volume) : (extent.ofFlat n).Inside extent := by
  have positive : 0 < extent.volume := by omega
  have plane : 0 < extent.x * extent.y := Nat.pos_of_mul_pos_right positive
  exact {
    x := Nat.mod_lt _ (Nat.pos_of_mul_pos_right plane)
    y := Nat.mod_lt _ (Nat.pos_of_mul_pos_left plane)
    z := Nat.div_lt_of_lt_mul bound }

/-- The point read back from the position of a point is that point. -/
theorem ofFlat_flat (inside : p.Inside extent) : extent.ofFlat (extent.flat p) = p := by
  have row : extent.flat p / extent.x = p.y + extent.y * p.z := by
    rw [flat, Nat.add_mul_div_left _ _ (Nat.zero_lt_of_lt inside.x), Nat.div_eq_of_lt inside.x,
      Nat.zero_add]
  have x : extent.flat p % extent.x = p.x := by
    rw [flat, Nat.add_mul_mod_self_left, Nat.mod_eq_of_lt inside.x]
  have y : (p.y + extent.y * p.z) % extent.y = p.y := by
    rw [Nat.add_mul_mod_self_left, Nat.mod_eq_of_lt inside.y]
  have z : (p.y + extent.y * p.z) / extent.y = p.z := by
    rw [Nat.add_mul_div_left _ _ (Nat.zero_lt_of_lt inside.y), Nat.div_eq_of_lt inside.y,
      Nat.zero_add]
  rw [ofFlat, ← Nat.div_div_eq_div_mul, row, x, y, z]

theorem flat_lt_volume (inside : p.Inside extent) : extent.flat p < extent.volume := by
  have plane : extent.x * (p.y + extent.y * p.z + 1) ≤ extent.x * (extent.y * extent.z) := by
    refine Nat.mul_le_mul_left _ ?_
    have rows : extent.y * (p.z + 1) ≤ extent.y * extent.z := Nat.mul_le_mul_left _ inside.z
    rw [Nat.mul_add, Nat.mul_one] at rows
    have := inside.y
    omega
  rw [Nat.mul_add, Nat.mul_one] at plane
  have := inside.x
  rw [flat, volume, Nat.mul_assoc]
  omega

/-- A box with an item count for its number of points has one for each plane. -/
theorem countedOfFlat?_of_lt (positive : 0 < extent.volume) (small : extent.volume < countBound)
    (n : Nat) : extent.countedOfFlat? n = some (extent.ofFlat n) := by
  have plane : 0 < extent.x * extent.y := Nat.pos_of_mul_pos_right positive
  have depth : 0 < extent.z := Nat.pos_of_mul_pos_left positive
  have below : extent.x * extent.y ≤ extent.volume := Nat.le_mul_of_pos_right _ depth
  have width := Nat.pos_of_mul_pos_right plane
  have height := Nat.pos_of_mul_pos_left plane
  rw [countedOfFlat?, countMul?_of_lt (by omega)]
  exact if_neg (by omega)

/-- A box that is not empty has a size exactly when its volume is an item count. -/
theorem size_eq (positive : 0 < extent.volume) :
    extent.size = if extent.volume < countBound then some extent.volume else none := by
  have depth : 0 < extent.z := Nat.pos_of_mul_pos_left positive
  have below : extent.x * extent.y ≤ extent.volume := Nat.le_mul_of_pos_right _ depth
  rw [size]
  split
  next small =>
    rw [countMul?_of_lt (by omega)]
    exact countMul?_of_lt small
  next large =>
    unfold countMul?
    split
    next => exact if_neg large
    next => rfl

end Dim3

namespace NdRange

variable {launch id : Nat} {kernelName : String} {globalSize localSize : Dim3}
  {wavefrontSize count size : Nat}

/-! ## Shapes that can be cut -/

/-- Along every axis groups fill the space without a rest, and the items can be counted. -/
structure Divisible (globalSize localSize : Dim3) (wavefrontSize : Nat) : Prop where
  wavefront : wavefrontSize ≠ 0
  extents : ∀ axis whole part, (axis, whole, part) ∈ axes globalSize localSize →
    whole ≠ 0 ∧ part ≠ 0 ∧ part ∣ whole
  counted : globalSize.volume < countBound

theorem checkAxis_eq_ok {axis : String} {whole part : Nat} :
    checkAxis (axis, whole, part) = .ok () ↔ whole ≠ 0 ∧ part ≠ 0 ∧ part ∣ whole := by
  constructor
  · intro checked
    obtain ⟨whole_pos, part_pos, divides⟩ := of_checkAxis checked
    exact ⟨by omega, by omega, divides⟩
  · rintro ⟨some_whole, some_part, divides⟩
    simp only [checkAxis]
    rw [if_neg (by omega), if_neg (not_not_intro (Nat.mod_eq_zero_of_dvd divides))]
    rfl

theorem checkAxes_eq_ok :
    (axes globalSize localSize).forM checkAxis = .ok () ↔
      ∀ axis whole part, (axis, whole, part) ∈ axes globalSize localSize →
        whole ≠ 0 ∧ part ≠ 0 ∧ part ∣ whole := by
  rw [forM_eq_ok]
  exact ⟨fun passed axis whole part member => checkAxis_eq_ok.mp (passed _ member),
    fun passed a member => checkAxis_eq_ok.mpr (passed a.1 a.2.1 a.2.2 member)⟩

theorem checkSize_eq_ok {which : String} {extent : Dim3} (positive : 0 < extent.volume) {n : Nat} :
    checkSize which extent = .ok n ↔ extent.volume < countBound ∧ n = extent.volume := by
  by_cases small : extent.volume < countBound
  · have sized : checkSize which extent = .ok extent.volume := by
      rw [checkSize, Dim3.size_eq positive, if_pos small]
      rfl
    rw [sized, Except.ok.injEq]
    exact ⟨fun same => ⟨small, same.symm⟩, fun given => given.2.symm⟩
  · rw [checkSize, Dim3.size_eq positive, if_neg small]
    exact ⟨fun failed => (by cases failed), fun given => absurd given.1 small⟩

/-- The groups of a space that can be counted can be counted. -/
theorem checkSize_local (checked : (axes globalSize localSize).forM checkAxis = .ok ())
    (counted : globalSize.volume < countBound) :
    checkSize "local" localSize = .ok localSize.volume := by
  obtain ⟨some_items, positive, divides⟩ := volume_of_checkAxis checked
  exact (checkSize_eq_ok positive).mpr
    ⟨Nat.lt_of_le_of_lt (Nat.le_of_dvd some_items divides) counted, rfl⟩

namespace Divisible

variable (shape : Divisible globalSize localSize wavefrontSize)
include shape

theorem checked : (axes globalSize localSize).forM checkAxis = .ok () :=
  checkAxes_eq_ok.mpr shape.extents

/-- A group has an item. -/
theorem size_pos : 0 < localSize.volume := (volume_of_checkAxis shape.checked).2.1

/-- The groups of the grid fill the space. -/
theorem volume_eq : globalSize.volume = (globalSize.div localSize).volume * localSize.volume := by
  obtain ⟨-, -, x⟩ := shape.extents "x" globalSize.x localSize.x (by simp [axes])
  obtain ⟨-, -, y⟩ := shape.extents "y" globalSize.y localSize.y (by simp [axes])
  obtain ⟨-, -, z⟩ := shape.extents "z" globalSize.z localSize.z (by simp [axes])
  simp only [Dim3.volume, Dim3.div]
  conv_lhs => rw [← Nat.div_mul_cancel x, ← Nat.div_mul_cancel y, ← Nat.div_mul_cancel z]
  simp only [Nat.mul_assoc, Nat.mul_left_comm]

/-- There is a group. -/
theorem grid_pos : 0 < (globalSize.div localSize).volume := by
  have some_items := (volume_of_checkAxis shape.checked).1
  rw [shape.volume_eq] at some_items
  exact Nat.pos_of_mul_pos_right some_items

/-- The number of groups is computed from the numbers of items. -/
theorem count_eq : globalSize.volume / localSize.volume = (globalSize.div localSize).volume := by
  rw [shape.volume_eq, Nat.mul_div_cancel _ shape.size_pos]

/-- There are no more groups than items, and a group has no more items than there are. -/
theorem counts_lt :
    (globalSize.div localSize).volume < countBound ∧ localSize.volume < countBound := by
  have counted := shape.counted
  have groups := Nat.le_mul_of_pos_right (globalSize.div localSize).volume shape.size_pos
  have items := Nat.le_mul_of_pos_left localSize.volume shape.grid_pos
  rw [shape.volume_eq] at counted
  exact ⟨by omega, by omega⟩

end Divisible

/-- A shape that can be cut is cut into one group for every place of the grid. -/
theorem create_of_divisible (shape : Divisible globalSize localSize wavefrontSize) :
    create launch id kernelName globalSize localSize wavefrontSize =
      .ok (cut launch id kernelName globalSize localSize wavefrontSize
        (globalSize.div localSize).volume localSize.volume) := by
  have items : checkSize "global" globalSize = .ok globalSize.volume :=
    (checkSize_eq_ok (volume_of_checkAxis shape.checked).1).mpr ⟨shape.counted, rfl⟩
  have group := checkSize_local shape.checked shape.counted
  rw [← shape.count_eq, create, if_neg shape.wavefront, shape.checked, items, group]
  rfl

theorem divisible_of_create {nd : NdRange}
    (made : create launch id kernelName globalSize localSize wavefrontSize = .ok nd) :
    Divisible globalSize localSize wavefrontSize := by
  obtain ⟨sized, checked, itemCount, groupSize, whole, -⟩ := create_eq_ok made
  exact {
    wavefront := sized
    extents := checkAxes_eq_ok.mp checked
    counted := ((checkSize_eq_ok (volume_of_checkAxis checked).1).mp whole).1 }

/-! ## Refusals -/

/-- The letter that the reason of a refusal begins with. -/
def initial : Error → Option Char
  | .invalidLaunch reason => reason.toList.head?
  | _ => none

theorem initial_of_checkAxis {axis : String × Nat × Nat} {e : Error}
    (failed : checkAxis axis = .error e) : initial e = some 'z' ∨ initial e = some 'g' := by
  simp only [checkAxis] at failed
  split at failed
  · cases failed
    exact .inl (by simp [initial, toString])
  · split at failed
    · cases failed
      exact .inr (by simp [initial, toString])
    · cases failed

/-- No launch is refused for the number of items of a group. -/
theorem initial_of_create {e : Error}
    (refused : create launch id kernelName globalSize localSize wavefrontSize = .error e) :
    initial e ≠ some 'l' := by
  unfold create at refused
  split at refused
  next =>
    cases refused
    simp [initial]
  next =>
    rcases checked : (axes globalSize localSize).forM checkAxis with e | _
    · rw [checked] at refused
      cases refused
      obtain ⟨axis, -, failed⟩ := forM_eq_error checked
      rcases initial_of_checkAxis failed with zero | rest
      · rw [zero]
        decide
      · rw [rest]
        decide
    rcases items : checkSize "global" globalSize with e | n
    · rw [checked, items] at refused
      cases refused
      unfold checkSize at items
      split at items
      · cases items
      · cases items
        simp [initial]
    · rw [checked, items,
        checkSize_local checked ((checkSize_eq_ok (volume_of_checkAxis checked).1).mp items).1]
        at refused
      cases refused

/-! ## The table of wavefronts -/

/-- The pieces between the marks of a scale, laid side by side, are what lies between the first mark
and the last. -/
theorem flatMap_range'_marks (mark : Nat → Nat) (ascending : Monotone mark) (n : Nat) :
    (List.range n).flatMap (fun i => List.range' (mark i) (mark (i + 1) - mark i)) =
      List.range' (mark 0) (mark n - mark 0) := by
  induction n with
  | zero => simp
  | succ n ih =>
    have low : mark 0 ≤ mark n := ascending (Nat.zero_le n)
    have high : mark n ≤ mark (n + 1) := ascending (Nat.le_succ n)
    have parts : mark (n + 1) - mark 0 = (mark n - mark 0) + (mark (n + 1) - mark n) := by omega
    rw [List.range_succ, List.flatMap_append, ih, List.flatMap_singleton, parts,
      ← List.range'_append_1, Nat.add_sub_cancel' low]

/-- Rows of equal length, laid side by side. -/
theorem flatMap_range'_rows (n width : Nat) :
    (List.range n).flatMap (fun i => List.range' (i * width) width) = List.range (n * width) := by
  have marks := flatMap_range'_marks (fun i => i * width)
    (fun a b le => Nat.mul_le_mul_right width le) n
  simp only [Nat.succ_mul, Nat.add_sub_cancel_left, Nat.zero_mul, Nat.sub_zero] at marks
  rw [marks, List.range_eq_range']

/-- Wavefront `index` of group `group`. -/
def wavefrontAt (wavefrontSize size group index : Nat) : Wavefront where
  id := group * ceilDiv size wavefrontSize + index
  group
  items := ⟨index * wavefrontSize, min (index * wavefrontSize + wavefrontSize) size⟩
  base := group * size

/-- The wavefronts of a group, as `wavefrontAt` gives them. -/
theorem groupWavefronts_eq (wavefrontSize size group : Nat) :
    groupWavefronts wavefrontSize size (ceilDiv size wavefrontSize) group =
      (List.range (ceilDiv size wavefrontSize)).map (wavefrontAt wavefrontSize size group) := rfl

/-- The wavefronts of a launch are numbered in the order of the table. -/
theorem ids_cut :
    (cut launch id kernelName globalSize localSize wavefrontSize count size).wavefronts.toList.map
      (·.id) = List.range (count * ceilDiv size wavefrontSize) := by
  rw [← flatMap_range'_rows]
  simp only [cut, List.map_flatMap, groupWavefronts_eq, List.map_map]
  refine List.flatMap_congr fun group _ => ?_
  rw [List.range'_eq_map_range]
  rfl

theorem size_wavefronts_cut :
    (cut launch id kernelName globalSize localSize wavefrontSize count size).wavefronts.size =
      count * ceilDiv size wavefrontSize := by
  rw [← Array.length_toList, ← List.length_map Wavefront.id, ids_cut, List.length_range]

/-- Quotient and remainder of a table index say which wavefront stands there. -/
theorem getElem?_wavefronts_cut {i : Nat} {w : Wavefront}
    (found : (cut launch id kernelName globalSize localSize wavefrontSize count size).wavefronts[i]? =
      some w) :
    ∃ group index, group < count ∧ index < ceilDiv size wavefrontSize ∧
      i = group * ceilDiv size wavefrontSize + index ∧
      w = wavefrontAt wavefrontSize size group index := by
  have number : w.id = i := by
    have listed : (List.range (count * ceilDiv size wavefrontSize))[i]? = some w.id := by
      rw [← ids_cut, List.getElem?_map, Array.getElem?_toList, found, Option.map_some]
    rw [← (List.getElem?_eq_some_iff.mp listed).2, List.getElem_range]
  have member := Array.mem_of_getElem? found
  simp only [cut, List.mem_toArray, List.mem_flatMap, groupWavefronts_eq, List.mem_map,
    List.mem_range] at member
  obtain ⟨group, below, index, inside, rfl⟩ := member
  exact ⟨group, index, below, inside, number.symm, rfl⟩

/-- A place in rows of equal length has one row, and one place in that row. -/
theorem eq_of_place_eq {width a b i j : Nat} (inside : i < width) (inside' : j < width)
    (same : a * width + i = b * width + j) : a = b ∧ i = j := by
  have first : (a * width + i) / width = a :=
    (div_mod_of_between (by omega) (by omega)).1
  have second : (b * width + j) / width = b :=
    (div_mod_of_between (by omega) (by omega)).1
  rw [same, second] at first
  subst first
  exact ⟨rfl, Nat.add_left_cancel same⟩

theorem wavefronts_cut_of_lt {group index : Nat} (below : group < count)
    (inside : index < ceilDiv size wavefrontSize) :
    (cut launch id kernelName globalSize localSize wavefrontSize count size).wavefronts[
      group * ceilDiv size wavefrontSize + index]? =
      some (wavefrontAt wavefrontSize size group index) := by
  have row : (group + 1) * ceilDiv size wavefrontSize ≤ count * ceilDiv size wavefrontSize :=
    Nat.mul_le_mul_right _ below
  rw [Nat.succ_mul] at row
  have bound : group * ceilDiv size wavefrontSize + index < (cut launch id kernelName globalSize
      localSize wavefrontSize count size).wavefronts.size := by
    rw [size_wavefronts_cut]
    omega
  have found := Array.getElem?_eq_getElem bound
  obtain ⟨group', index', -, inside', place, here⟩ := getElem?_wavefronts_cut found
  obtain ⟨rfl, rfl⟩ := eq_of_place_eq inside inside' place
  rw [found, here]

/-! ## The cut with words -/

/-- Wavefront `index` of group `group`, where its items are counted with words. -/
def countedWavefront? (wavefrontSize size perGroup group index : Nat) : Option Wavefront := do
  let start ← countMul? index wavefrontSize
  let base ← countMul? (countWord group) size
  return {
    id := group * perGroup + index
    group
    items := ⟨start, min (countAdd start wavefrontSize) size⟩
    base }

/-- A group, where its place in the grid is counted with words. -/
def countedGroup? (grid : Dim3) (perGroup group : Nat) : Option WorkGroup := do
  let index ← grid.countedOfFlat? (countWord group)
  return { id := group, index, wavefronts := ⟨group * perGroup, (group + 1) * perGroup⟩ }

/-- The launch that an index space is cut into, where everything is counted with words. -/
def countedCut? (launch id : Nat) (kernelName : String) (globalSize localSize : Dim3)
    (wavefrontSize : Nat) : Option NdRange := do
  let itemCount ← globalSize.size
  let size ← localSize.size
  let perGroup ← countCeilDiv? size wavefrontSize
  if localSize.x = 0 ∨ localSize.y = 0 ∨ localSize.z = 0 ∨ size = 0 then none
  let grid := globalSize.div localSize
  let count := itemCount / size
  let groups ← (List.range count).mapM (countedGroup? grid perGroup)
  let wavefronts ← (List.range count).mapM fun group =>
    (List.range (countWord perGroup)).mapM (countedWavefront? wavefrontSize size perGroup group)
  return {
    id, launch, kernelName, globalSize, localSize, wavefrontSize
    wavefrontsPerGroup := perGroup
    groups := groups.toArray
    wavefronts := wavefronts.flatten.toArray
    pending := List.range count }

/-- The wavefronts of a group are those that begin inside it. -/
theorem lt_ceilDiv_iff {index : Nat} (sized : 0 < wavefrontSize) :
    index < ceilDiv size wavefrontSize ↔ index * wavefrontSize < size := by
  rw [ceilDiv, Nat.lt_iff_add_one_le, Nat.le_div_iff_mul_le sized, Nat.add_mul, Nat.one_mul]
  omega

theorem countedWavefront?_of_lt {group index : Nat} (sized : 0 < wavefrontSize)
    (positive : 0 < size) (below : group < count) (inside : index < ceilDiv size wavefrontSize)
    (small : count * size < countBound) :
    countedWavefront? wavefrontSize size (ceilDiv size wavefrontSize) group index =
      some (wavefrontAt wavefrontSize size group index) := by
  have start : index * wavefrontSize < size := (lt_ceilDiv_iff sized).mp inside
  have base : group * size + size ≤ count * size := by
    rw [← Nat.succ_mul]
    exact Nat.mul_le_mul_right size below
  have number : group ≤ group * size := Nat.le_mul_of_pos_right group positive
  rw [countedWavefront?, countMul?_of_lt (by omega), countWord_of_lt (by omega),
    countMul?_of_lt (by omega)]
  -- where the sum is cut off, the end of the group lies before it
  have stop : min (countAdd (index * wavefrontSize) wavefrontSize) size =
      min (index * wavefrontSize + wavefrontSize) size := by
    unfold countAdd
    omega
  simp only [Option.bind_eq_bind, Option.bind_some, stop]
  rfl

/-- Nothing is lost when the groups are counted with words. -/
theorem countedGroup?_of_lt {grid : Dim3} {perGroup group : Nat} (below : group < grid.volume)
    (small : grid.volume < countBound) :
    countedGroup? grid perGroup group = some {
      id := group
      index := grid.ofFlat group
      wavefronts := ⟨group * perGroup, (group + 1) * perGroup⟩ } := by
  rw [countedGroup?, countWord_of_lt (by omega), Dim3.countedOfFlat?_of_lt (by omega) small]
  rfl

/-- Nothing is lost when a launch is cut with words for item counts. -/
theorem countedCut?_of_divisible (shape : Divisible globalSize localSize wavefrontSize) :
    countedCut? launch id kernelName globalSize localSize wavefrontSize =
      some (cut launch id kernelName globalSize localSize wavefrontSize
        (globalSize.div localSize).volume localSize.volume) := by
  have sized : 0 < wavefrontSize := Nat.pos_of_ne_zero shape.wavefront
  have positive := shape.size_pos
  obtain ⟨few_groups, few_items⟩ := shape.counts_lt
  have few_wavefronts : ceilDiv localSize.volume wavefrontSize < countBound :=
    Nat.lt_of_le_of_lt (ceilDiv_le sized) few_items
  have total : (globalSize.div localSize).volume * localSize.volume < countBound := by
    rw [← shape.volume_eq]
    exact shape.counted
  have groups := mapM_eq_some (f := countedGroup? (globalSize.div localSize)
      (ceilDiv localSize.volume wavefrontSize)) fun group member =>
    countedGroup?_of_lt (List.mem_range.mp member) few_groups
  have wavefronts := mapM_eq_some (l := List.range (globalSize.div localSize).volume)
      (f := fun group => (List.range (ceilDiv localSize.volume wavefrontSize)).mapM
        (countedWavefront? wavefrontSize localSize.volume (ceilDiv localSize.volume wavefrontSize)
          group)) fun group member =>
    mapM_eq_some fun index inside =>
      countedWavefront?_of_lt sized positive (List.mem_range.mp member) (List.mem_range.mp inside)
        total
  have whole : globalSize.size = some globalSize.volume := by
    rw [Dim3.size_eq (volume_of_checkAxis shape.checked).1, if_pos shape.counted]
  have part : localSize.size = some localSize.volume := by
    rw [Dim3.size_eq positive, if_pos few_items]
  have some_extents : ¬(localSize.x = 0 ∨ localSize.y = 0 ∨ localSize.z = 0 ∨ localSize.volume = 0) := by
    have plane : 0 < localSize.x * localSize.y := Nat.pos_of_mul_pos_right positive
    have width := Nat.pos_of_mul_pos_right plane
    have height := Nat.pos_of_mul_pos_left plane
    have depth : 0 < localSize.z := Nat.pos_of_mul_pos_left positive
    omega
  unfold countedCut?
  simp only [whole, part, Option.bind_eq_bind, Option.bind_some,
    countCeilDiv?_of_lt sized few_items, if_neg some_extents, shape.count_eq,
    countWord_of_lt few_wavefronts, groups, wavefronts]
  rfl

/-! ## The tables of a launch -/

/-- The tables of a launch lay out its index space. -/
structure LaidOut (nd : NdRange) : Prop where
  /-- Wavefronts are numbered in the order of the table. -/
  wavefrontIds : ∀ (i : Nat) (w : Wavefront), nd.wavefronts[i]? = some w → w.id = i
  /-- Groups are numbered in the order of the table. -/
  groupIds : ∀ (i : Nat) (g : WorkGroup), nd.groups[i]? = some g → g.id = i
  /-- The ranges of the groups follow one another, from the first wavefront to the last. -/
  spans : nd.groups.toList.flatMap (·.wavefronts.toList) = List.range nd.wavefronts.size
  /-- A group has wavefronts, and those in its range are of that group. -/
  members : ∀ g ∈ nd.groups.toList, g.wavefronts.toList ≠ [] ∧
    ∀ i ∈ g.wavefronts.toList, ∃ w, nd.wavefronts[i]? = some w ∧ w.group = g.id
  /-- No wavefront is empty or too long. One that is not the last of its group is full. -/
  lengths : ∀ (i : Nat) (w : Wavefront), nd.wavefronts[i]? = some w → 0 < w.items.length ∧
    w.items.length ≤ nd.wavefrontSize ∧ ∃ g, nd.groups[w.group]? = some g ∧
      (i + 1 ≠ g.wavefronts.stop → w.items.length = nd.wavefrontSize)
  /-- The items of the wavefronts follow one another, from the first item to the last. -/
  items : nd.wavefronts.toList.flatMap (fun w => w.items.toList.map w.globalId) =
    List.range nd.itemCount
  /-- The number of a group is the position of its place in the grid. -/
  places : ∀ (i : Nat) (g : WorkGroup), nd.groups[i]? = some g →
    g.index.Inside (nd.globalSize.div nd.localSize) ∧
      i = g.index.x + (nd.globalSize.div nd.localSize).x *
        (g.index.y + (nd.globalSize.div nd.localSize).y * g.index.z)
  /-- Every place of the grid is the place of one group. -/
  grid : ∀ p : Dim3, p.Inside (nd.globalSize.div nd.localSize) →
    ∃! i : Nat, ∃ g, nd.groups[i]? = some g ∧ g.index = p

/-- The range of a group, as a list. -/
theorem toList_span (i perGroup : Nat) :
    (⟨i * perGroup, (i + 1) * perGroup⟩ : Span).toList = List.range' (i * perGroup) perGroup := by
  rw [Span.toList, Span.length, Nat.succ_mul, Nat.add_sub_cancel_left]

/-- The wavefronts of a group hold its items, one wavefront after the other. -/
theorem items_groupWavefronts (sized : 0 < wavefrontSize) (group : Nat) :
    (groupWavefronts wavefrontSize size (ceilDiv size wavefrontSize) group).flatMap
      (fun w => w.items.toList.map w.globalId) = List.range' (group * size) size := by
  have marks := flatMap_range'_marks (fun index => min (index * wavefrontSize) size)
    (fun a b le => by have := Nat.mul_le_mul_right wavefrontSize le; dsimp only; omega)
    (ceilDiv size wavefrontSize)
  have enough : size ≤ ceilDiv size wavefrontSize * wavefrontSize :=
    Nat.not_lt.mp fun short => Nat.lt_irrefl _ ((lt_ceilDiv_iff sized).mpr short)
  rw [Nat.zero_mul, Nat.zero_min, Nat.min_eq_right enough, Nat.sub_zero] at marks
  calc
    _ = (List.range (ceilDiv size wavefrontSize)).flatMap fun index =>
        (List.range' (min (index * wavefrontSize) size)
          (min ((index + 1) * wavefrontSize) size - min (index * wavefrontSize) size)).map
          (group * size + ·) := by
      rw [groupWavefronts_eq, List.flatMap_map]
      refine List.flatMap_congr fun index inside => ?_
      have start := (lt_ceilDiv_iff sized).mp (List.mem_range.mp inside)
      rw [Nat.min_eq_left (Nat.le_of_lt start), Nat.succ_mul]
      rfl
    _ = (List.range' 0 size).map (group * size + ·) := by rw [← List.map_flatMap, marks]
    _ = _ := by rw [List.map_add_range', Nat.add_zero]

theorem items_cut (sized : 0 < wavefrontSize) :
    (cut launch id kernelName globalSize localSize wavefrontSize count
      size).wavefronts.toList.flatMap (fun w => w.items.toList.map w.globalId) =
      List.range (count * size) := by
  rw [← flatMap_range'_rows]
  simp only [cut, List.flatMap_assoc, items_groupWavefronts sized]

theorem length_wavefrontAt {index : Nat} (group : Nat) (sized : 0 < wavefrontSize)
    (inside : index < ceilDiv size wavefrontSize) :
    0 < (wavefrontAt wavefrontSize size group index).items.length ∧
      (wavefrontAt wavefrontSize size group index).items.length ≤ wavefrontSize ∧
      (index + 1 ≠ ceilDiv size wavefrontSize →
        (wavefrontAt wavefrontSize size group index).items.length = wavefrontSize) := by
  have start := (lt_ceilDiv_iff sized).mp inside
  simp only [wavefrontAt, Span.length]
  refine ⟨by omega, by omega, fun other => ?_⟩
  have next := (lt_ceilDiv_iff sized).mp (Nat.lt_of_le_of_ne inside other)
  rw [Nat.succ_mul] at next
  omega

/-- The tables that a shape is cut into. -/
theorem laidOut_cut (shape : Divisible globalSize localSize wavefrontSize) :
    (cut launch id kernelName globalSize localSize wavefrontSize
      (globalSize.div localSize).volume localSize.volume).LaidOut where
  wavefrontIds i w found := by
    obtain ⟨group, index, -, -, rfl, rfl⟩ := getElem?_wavefronts_cut found
    rfl
  groupIds i g found := by
    obtain ⟨-, rfl⟩ := getElem?_groups_cut found
    rfl
  spans := by
    rw [size_wavefronts_cut, ← flatMap_range'_rows]
    simp only [cut, List.flatMap_map, toList_span]
  members g member := by
    obtain ⟨i, found⟩ := List.getElem?_of_mem member
    rw [Array.getElem?_toList] at found
    obtain ⟨below, rfl⟩ := getElem?_groups_cut found
    have some_wavefronts : 0 < ceilDiv localSize.volume wavefrontSize := by
      rw [lt_ceilDiv_iff (Nat.pos_of_ne_zero shape.wavefront), Nat.zero_mul]
      exact shape.size_pos
    rw [toList_span]
    refine ⟨by simp only [ne_eq, List.range'_eq_nil_iff]; omega, fun j inside => ?_⟩
    obtain ⟨low, high⟩ := List.mem_range'_1.mp inside
    obtain ⟨index, rfl⟩ := Nat.exists_eq_add_of_le low
    exact ⟨_, wavefronts_cut_of_lt below (Nat.lt_of_add_lt_add_left high), rfl⟩
  lengths i w found := by
    obtain ⟨group, index, below, inside, rfl, rfl⟩ := getElem?_wavefronts_cut found
    obtain ⟨positive, short, full⟩ :=
      length_wavefrontAt group (Nat.pos_of_ne_zero shape.wavefront) inside
    refine ⟨positive, short, _, groups_cut_of_lt below, fun other => full fun last => other ?_⟩
    rw [Nat.add_assoc, last]
    exact (Nat.succ_mul ..).symm
  items := by
    rw [items_cut (Nat.pos_of_ne_zero shape.wavefront), ← shape.volume_eq]
    rfl
  places i g found := by
    obtain ⟨below, rfl⟩ := getElem?_groups_cut found
    exact ⟨Dim3.inside_ofFlat below, (Dim3.flat_ofFlat _ i).symm⟩
  grid p inside := by
    refine ⟨_, ⟨_, groups_cut_of_lt (Dim3.flat_lt_volume inside), Dim3.ofFlat_flat inside⟩, ?_⟩
    rintro i ⟨g, found, rfl⟩
    obtain ⟨-, rfl⟩ := getElem?_groups_cut found
    exact (Dim3.flat_ofFlat _ i).symm

/-- A launch is accepted exactly when it has a shape that can be cut, and is not refused for the
number of items of a group. A launch that is accepted is the one that the shape is cut into when
everything is counted with words, and its tables lay out the index space. -/
theorem create_partitions (launch id : Nat) (kernelName : String) (globalSize localSize : Dim3)
    (wavefrontSize : Nat) :
    ((create launch id kernelName globalSize localSize wavefrontSize).isOk = true ↔
      Divisible globalSize localSize wavefrontSize) ∧
    (∀ rest, create launch id kernelName globalSize localSize wavefrontSize ≠
      .error (.invalidLaunch ("local size " ++ rest))) ∧
    ∀ nd, create launch id kernelName globalSize localSize wavefrontSize = .ok nd →
      nd.globalSize = globalSize ∧ nd.localSize = localSize ∧ nd.wavefrontSize = wavefrontSize ∧
      countedCut? launch id kernelName globalSize localSize wavefrontSize = some nd ∧
      nd.LaidOut := by
  refine ⟨⟨fun accepted => ?_, fun shape => ?_⟩, fun rest refused => ?_, fun nd made => ?_⟩
  · rcases made : create launch id kernelName globalSize localSize wavefrontSize with e | nd
    · rw [made] at accepted
      cases accepted
    · exact divisible_of_create made
  · rw [create_of_divisible shape]
    rfl
  · refine initial_of_create refused ?_
    simp [initial]
  · have shape := divisible_of_create made
    rw [create_of_divisible shape, Except.ok.injEq] at made
    subst made
    exact ⟨rfl, rfl, rfl, countedCut?_of_divisible shape, laidOut_cut shape⟩

/-- The largest group there is, in wavefronts of one item less. The end of the second wavefront is
a sum that is cut off. -/
theorem create_partitions_on_largest_group :
    ∃ nd, create 1 0 "kernel" ⟨4294967295, 1, 1⟩ ⟨4294967295, 1, 1⟩ 4294967294 = .ok nd ∧
      nd.wavefronts.toList.map (·.items) = [⟨0, 4294967294⟩, ⟨4294967294, 4294967295⟩] ∧
      countedCut? 1 0 "kernel" ⟨4294967295, 1, 1⟩ ⟨4294967295, 1, 1⟩ 4294967294 = some nd ∧
      nd.LaidOut := by
  have made : create 1 0 "kernel" ⟨4294967295, 1, 1⟩ ⟨4294967295, 1, 1⟩ 4294967294 = .ok _ := rfl
  obtain ⟨-, -, -, words, tables⟩ := (create_partitions ..).2.2 _ made
  exact ⟨_, made, rfl, words, tables⟩

end NdRange

end Accelerator
