import Accelerator.Proofs.Device.Operations
import Accelerator.Proofs.Pipeline.Progress

/-!
# Accounts

What a unit owes for its work-group goes through its hands: it takes over the price of the group
with the group, pays in every cycle for what happens, and owes nothing when it is relieved. So
what has been counted and what is still owed always add up to the same, over all units and all
groups that wait.
-/

namespace Accelerator

/-- The price of all instructions of some wavefronts. -/
def Tariff.priceOf (t : Tariff) (p : SyntheticProgram) (lanes : Nat) (wavefronts : List Wavefront) :
    Nat :=
  (wavefronts.map fun w => t.span p ((w.subwavefrontCount? lanes).getD 0) 0).sum

/-! ## Units -/

namespace ComputeUnit

variable {t : Tariff} {p : SyntheticProgram} {u : ComputeUnit} {μ : Type} [MemoryService μ]
  {memory : μ} {cycle : Nat}

/-- A drained unit owes nothing. -/
theorem owed_of_isDrained (drained : u.isDrained = true) : u.owed t p = 0 := by
  have empty := slots_eq_nil_of_isDrained drained
  simp only [slots, List.append_eq_nil_iff, Option.toList_eq_nil_iff,
    Option.map_eq_none_iff] at empty
  have retired : ∀ r ∈ u.wavefronts.toList, u.futureOf t p r = 0 := by
    intro r member
    simp only [isDrained, Bool.and_eq_true, Array.all_eq_true_iff_forall_mem] at drained
    rw [futureOf, Tariff.future, if_pos (drained.2 r (Array.mem_toList_iff.mp member))]
  have future : (u.wavefronts.toList.map (u.futureOf t p)).sum = 0 :=
    List.sum_eq_zero fun n member => by
      rcases List.mem_map.mp member with ⟨r, here, rfl⟩
      exact retired r here
  simp [owed, future, empty, weight]

theorem isDrained_release (drained : u.isDrained = true) : u.release.2.isDrained = true := by
  unfold release
  split
  · simp only [isDrained, idleLanes, Bool.and_eq_true] at drained ⊢
    simp [drained]
  · exact drained

/-- A unit owes the same whether or not it has been relieved. -/
theorem owed_release : u.release.2.owed t p = u.owed t p := by
  cases drained : u.isDrained with
  | true => rw [owed_of_isDrained drained, owed_of_isDrained (isDrained_release drained)]
  | false => rw [Job.release_of_not_drained drained]

/-- A unit without a work-group owes nothing. -/
theorem Sound.owed_eq_zero (sound : u.Sound) (free : u.group = none) : u.owed t p = 0 := by
  refine owed_of_isDrained (sound.isDrained_iff.mpr ⟨sound.slots_eq_nil free, ?_⟩)
  simp [sound.unassigned free]

/-- A unit takes over the price of the group that it is given. -/
theorem Sound.owed_loaded (sound : u.Sound) (free : u.group = none) (group : Nat)
    (wavefronts : List Wavefront) :
    (u.loaded group wavefronts).owed t p = t.priceOf p u.lanes.length wavefronts := by
  have empty := sound.slots_eq_nil free
  simp only [slots, List.append_eq_nil_iff, Option.toList_eq_nil_iff,
    Option.map_eq_none_iff] at empty
  simp [owed, loaded, empty, weight, Tariff.priceOf, futureOf, Tariff.future, Function.comp_def]

/-- A unit that has never worked follows any program. -/
theorem Follows.create (p : SyntheticProgram) {id deviceId laneCount : Nat} (some_lanes : 0 < laneCount)
    (order : StageOrder) : ({ create id deviceId laneCount with order } : ComputeUnit).Follows p where
  lanes := by simpa [ComputeUnit.create] using some_lanes
  items _ _ found := by cases found
  bounded _ _ found := by cases found
  fetched stage _ _ held := by cases stage <;> cases held
  executing _ working := by cases working

/-- A unit that is given a group with a program to run follows that program. -/
theorem Follows.loaded (follows : u.Follows p) (sound : u.Sound) (free : u.group = none) (group : Nat)
    {wavefronts : List Wavefront} (items : ∀ w ∈ wavefronts, w.items.start < w.items.stop) :
    (u.loaded group wavefronts).Follows p := by
  have fresh : ∀ (index : Nat) (r : Resident), (u.loaded group wavefronts).wavefronts[index]? = some r →
      ∃ w ∈ wavefronts, r = { wavefront := w } := by
    intro index r found
    simp only [ComputeUnit.loaded, List.getElem?_toArray, List.getElem?_map,
      Option.map_eq_some_iff] at found
    rcases found with ⟨w, here, rfl⟩
    exact ⟨w, List.mem_of_getElem? here, rfl⟩
  refine ⟨follows.lanes, fun index r found => ?_, fun index r found _ => ?_, follows.fetched,
    fun ex working => ?_⟩
  · rcases fresh index r found with ⟨w, member, rfl⟩
    exact items w member
  · rcases fresh index r found with ⟨w, -, rfl⟩
    exact Nat.succ_pos _
  · have empty := sound.slots_eq_nil free
    have executing : u.executing = some ex := working
    simp [slots, executing] at empty

/-! ## A cycle of a unit -/

/-- The unit after a cycle in which it runs a program, and relieved if it has finished. -/
def afterwards (u : ComputeUnit) (p : SyntheticProgram) (memory : μ) (cycle : Nat) : ComputeUnit :=
  (if u.isDrained then u else u.next cycle (u.asked p memory cycle)).release.2

theorem cycled_unit (b : Bench SyntheticProgram μ) (order : StageOrder) (cycle group : Nat) :
    (b.cycled order cycle group).unit.release.2 = b.unit.afterwards b.isa b.memory cycle ∧
      (b.cycled order cycle group).isa = b.isa := by
  unfold Bench.cycled afterwards
  split
  · exact ⟨rfl, rfl⟩
  · rw [Bench.after_of_stateless SyntheticProgram.stateless]
    exact ⟨rfl, rfl⟩

theorem stats_release : u.release.2.stats.instructions = u.stats.instructions ∧
    u.release.2.stats.requests = u.stats.requests := by
  unfold release
  split
  · split <;> exact ⟨rfl, rfl⟩
  · exact ⟨rfl, rfl⟩

@[simp] theorem executing_release : u.release.2.executing = u.executing := by
  unfold release
  split
  · split <;> rfl
  · rfl

/-- A unit gives its group back exactly if it has finished it. -/
theorem isBusy_release (busy : u.isBusy = true) : u.release.2.isBusy = !u.isDrained := by
  obtain ⟨group, held⟩ := Option.isSome_iff_exists.mp busy
  cases drained : u.isDrained with
  | true => simp [release, held, drained, isBusy]
  | false => rw [Job.release_of_not_drained drained, busy, Bool.not_false]

/-- A unit that is relieved of its group has counted it. -/
theorem groups_release :
    u.release.2.stats.groups + (if u.release.2.isBusy then 1 else 0) =
      u.stats.groups + if u.isBusy then 1 else 0 := by
  rcases held : u.group with _ | group
  · simp [release, held]
  · cases drained : u.isDrained with
    | true => simp [release, held, drained, isBusy]
    | false => rw [Job.release_of_not_drained drained]

theorem Follows.release (follows : u.Follows p) : u.release.2.Follows p := by
  cases drained : u.isDrained with
  | false =>
      rw [Job.release_of_not_drained drained]
      exact follows
  | true =>
      rcases held : u.group with _ | group
      · simpa [ComputeUnit.release, held] using follows
      · have released : u.release.2 = { u.idleLanes with
            group := none
            wavefronts := #[]
            stats := { u.stats with groups := u.stats.groups + 1 } } := by
          simp [ComputeUnit.release, held, drained]
        rw [released]
        refine ⟨?_, ?_, ?_, follows.fetched, fun ex working => ?_⟩
        · simpa [idleLanes] using follows.lanes
        · intro index r found
          cases found
        · intro index r found
          cases found
        · simp [isDrained, idleLanes] at drained working
          simp [drained] at working

theorem lanes_release : u.release.2.lanes.length = u.lanes.length := by
  unfold ComputeUnit.release
  split
  · split
    · simp [idleLanes]
    · rfl
  · rfl

/-- A unit goes on to follow its program. -/
theorem Follows.afterwards (follows : u.Follows p) (sound : u.Sound) (kept : .end ∉ p.kinds)
    (memory : μ) (cycle : Nat) :
    (u.afterwards p memory cycle).Follows p ∧
      (u.afterwards p memory cycle).lanes.length = u.lanes.length := by
  unfold ComputeUnit.afterwards
  rw [lanes_release]
  split
  · exact ⟨follows.release, rfl⟩
  · exact ⟨(follows.next sound kept).release, u.nextLanes_length cycle⟩

/-! ## Books that balance -/

/-- If a unit counts in a cycle what it pays for, then what it has counted and what it still owes make
up the same before and after. -/
theorem Follows.count_afterwards (follows : u.Follows p) (sound : u.Sound) (kept : .end ∉ p.kinds)
    {count : UnitStats → Nat} (released : ∀ v : ComputeUnit, count v.release.2.stats = count v.stats)
    (counted : count (u.next cycle (u.asked p memory cycle)).stats =
      count u.stats + u.spent t p cycle (u.asked p memory cycle)) :
    count (u.afterwards p memory cycle).stats + (u.afterwards p memory cycle).owed t p =
      count u.stats + u.owed t p := by
  unfold ComputeUnit.afterwards
  rw [owed_release, released]
  split
  next => rfl
  next =>
      have paid : (u.next cycle (u.asked p memory cycle)).owed t p +
          u.spent t p cycle (u.asked p memory cycle) = u.owed t p :=
        follows.owed_next sound kept t
      omega

theorem Follows.instructions_afterwards (follows : u.Follows p) (sound : u.Sound)
    (kept : .end ∉ p.kinds) :
    (u.afterwards p memory cycle).stats.instructions +
        (u.afterwards p memory cycle).owed .instructions p =
      u.stats.instructions + u.owed .instructions p := by
  apply follows.count_afterwards sound kept fun _ => stats_release.1
  rw [spent_instructions]
  rfl

theorem Follows.requests_afterwards (follows : u.Follows p) (sound : u.Sound)
    (kept : .end ∉ p.kinds) :
    (u.afterwards p memory cycle).stats.requests +
        (u.afterwards p memory cycle).owed .requests p =
      u.stats.requests + u.owed .requests p := by
  apply follows.count_afterwards sound kept fun _ => stats_release.2
  rw [follows.spent_requests sound]
  rfl

theorem groups_afterwards :
    (u.afterwards p memory cycle).stats.groups +
        (if (u.afterwards p memory cycle).isBusy then 1 else 0) =
      u.stats.groups + if u.isBusy then 1 else 0 := by
  unfold ComputeUnit.afterwards
  rw [groups_release]
  split <;> rfl

/-- The work that a unit has left, counting its group as well. -/
def workLeft (u : ComputeUnit) (p : SyntheticProgram) : Nat :=
  u.owed .work p + if u.isBusy then 1 else 0

/-- In every cycle a busy unit has less work left, or waits for the memory. -/
theorem Follows.work_afterwards (follows : u.Follows p) (sound : u.Sound) (kept : .end ∉ p.kinds)
    (busy : u.isBusy = true) (memory : μ) (cycle : Nat) :
    (u.afterwards p memory cycle).workLeft p < u.workLeft p ∨
      ((u.afterwards p memory cycle).workLeft p = u.workLeft p ∧
        ∃ ex, u.executing = some ex ∧ (u.afterwards p memory cycle).executing = some ex ∧
          cycle < ex.readyAt) := by
  unfold ComputeUnit.afterwards workLeft
  cases drained : u.isDrained with
  | true =>
      have released : u.release.2.isBusy = false := by
        rw [isBusy_release busy, drained, Bool.not_true]
      rw [if_pos rfl, owed_release, released, busy]
      simp
  | false =>
      let next := u.next cycle (u.asked p memory cycle)
      have paid : next.owed .work p + u.spent .work p cycle (u.asked p memory cycle) =
          u.owed .work p := follows.owed_next sound kept .work
      rw [if_neg Bool.false_ne_true, owed_release, busy, if_pos rfl]
      show next.owed .work p + (if next.release.2.isBusy = true then 1 else 0) < _ ∨
        next.owed .work p + (if next.release.2.isBusy = true then 1 else 0) = _ ∧ _
      -- By this tariff every movement has its price: nothing is paid only if nothing moves.
      rcases Nat.eq_zero_or_pos (u.spent .work p cycle (u.asked p memory cycle)) with still | moved
      · rcases sound.waits drained still with ⟨ex, here, stays, waits⟩
        have running : next.isDrained = false := by
          have working : next.executing = some ex := stays
          simp [isDrained, working]
        have released : next.release.2 = next := Job.release_of_not_drained running
        have busy' : next.isBusy = true := busy
        right
        refine ⟨?_, ex, here, ?_, waits⟩
        · rw [released, busy', if_pos rfl]
          omega
        · rw [executing_release]
          exact stays
      · left
        have less : (if next.release.2.isBusy then 1 else 0) ≤ 1 := by split <;> omega
        omega

end ComputeUnit

end Accelerator
