import Accelerator.NdRange

/-!
# Launches in use

A launch keeps the queue of waiting groups beside the table of all groups; `NdRange.Consistent`
says that they agree. Starting the group at the head of the queue and finishing a running group
keep them in agreement, and change nothing but the phase of one group: which wavefronts a group
has is settled when the launch is cut up (`NdRange.wavefrontsOf_cut`).
-/

namespace Accelerator

/-- The phase of a group that is taken for done. -/
def Phase.closed : Phase → Phase
  | .running unit => .done unit
  | phase => phase

@[simp] theorem Phase.closed_closed (phase : Phase) : phase.closed.closed = phase.closed := by
  cases phase <;> rfl

@[simp] theorem Phase.closed_eq_pending_iff (phase : Phase) :
    phase.closed = .pending ↔ phase = .pending := by
  cases phase <;> simp [closed]

@[simp] theorem Phase.closed_ne_running (phase : Phase) (unit : Nat) :
    phase.closed ≠ .running unit := by
  cases phase <;> simp [closed]

namespace NdRange

/-! ## Queue and table -/

/-- Every group stands at its number, and those that wait are in the queue, once each. -/
structure Consistent (nd : NdRange) : Prop where
  named : ∀ (id : Nat) (g : WorkGroup), nd.groups[id]? = some g → g.id = id
  distinct : nd.pending.Nodup
  waiting : ∀ id, id ∈ nd.pending ↔ ∃ g, nd.groups[id]? = some g ∧ g.phase = .pending

/-- What does not change in the life of a launch. -/
structure SameShape (nd origin : NdRange) : Prop where
  id : nd.id = origin.id
  launch : nd.launch = origin.launch
  localSize : nd.localSize = origin.localSize
  wavefrontSize : nd.wavefrontSize = origin.wavefrontSize
  groupCount : nd.groupCount = origin.groupCount
  wavefrontsOf : nd.wavefrontsOf = origin.wavefrontsOf

theorem SameShape.refl (nd : NdRange) : nd.SameShape nd := ⟨rfl, rfl, rfl, rfl, rfl, rfl⟩

theorem SameShape.trans {a b c : NdRange} (first : a.SameShape b) (second : b.SameShape c) :
    a.SameShape c where
  id := first.id.trans second.id
  launch := first.launch.trans second.launch
  localSize := first.localSize.trans second.localSize
  wavefrontSize := first.wavefrontSize.trans second.wavefrontSize
  groupCount := first.groupCount.trans second.groupCount
  wavefrontsOf := first.wavefrontsOf.trans second.wavefrontsOf

theorem SameShape.symm {a b : NdRange} (same : a.SameShape b) : b.SameShape a :=
  ⟨same.id.symm, same.launch.symm, same.localSize.symm, same.wavefrontSize.symm,
    same.groupCount.symm, same.wavefrontsOf.symm⟩

variable {nd : NdRange} {g : WorkGroup} {phase : Phase} {id unit : Nat}

theorem getElem?_setPhase (found : nd.groups[g.id]? = some g) (id : Nat) :
    (nd.setPhase g phase).groups[id]? =
      if id = g.id then some { g with phase } else nd.groups[id]? := by
  have bound : g.id < nd.groups.size := (Array.getElem?_eq_some_iff.mp found).1
  rw [setPhase, Array.getElem?_setIfInBounds]
  by_cases same : g.id = id
  · subst same
    simp [bound]
  · simp [same, Ne.symm same]

theorem sameShape_setPhase (found : nd.groups[g.id]? = some g) :
    (nd.setPhase g phase).SameShape nd where
  id := rfl
  launch := rfl
  localSize := rfl
  wavefrontSize := rfl
  groupCount := Array.size_setIfInBounds
  wavefrontsOf := by
    funext id
    unfold NdRange.wavefrontsOf NdRange.group
    rw [getElem?_setPhase found]
    by_cases same : id = g.id
    · subst same
      rw [if_pos rfl, found]
      rfl
    · rw [if_neg same]
      rfl

/-! ## Asking for a group -/

/-- The wavefronts of a group are those of its span. -/
theorem wavefrontsOf_of_found (found : nd.groups[id]? = some g) :
    nd.wavefrontsOf id =
      .ok (nd.wavefronts.extract g.wavefronts.start g.wavefronts.stop).toList := by
  simp [wavefrontsOf, NdRange.group, found, bind, Except.bind, pure, Except.pure]

/-- The wavefronts of a group stand in the table. -/
theorem mem_wavefronts_of_wavefrontsOf {ws : List Wavefront} {w : Wavefront}
    (listed : nd.wavefrontsOf id = .ok ws) (member : w ∈ ws) : w ∈ nd.wavefronts := by
  rcases found : nd.groups[id]? with _ | g
  · simp [wavefrontsOf, NdRange.group, found, bind, Except.bind] at listed
  · rw [wavefrontsOf_of_found found, Except.ok.injEq] at listed
    subst listed
    rw [Array.mem_toList_iff, Array.mem_extract_iff_getElem] at member
    obtain ⟨i, inside, rfl⟩ := member
    exact Array.getElem_mem _

theorem status_eq_ok {status : Status} :
    nd.status id = .ok status ↔ ∃ g, nd.groups[id]? = some g ∧ g.status = status := by
  unfold NdRange.status NdRange.group
  rcases nd.groups[id]? with _ | g <;>
    simp [bind, Except.bind, pure, Except.pure, throw, throwThe, MonadExceptOf.throw]

theorem waitingGroup_eq_ok {g : WorkGroup} :
    nd.waitingGroup id = .ok g ↔ nd.groups[id]? = some g ∧ g.phase = .pending := by
  unfold waitingGroup group
  rcases found : nd.groups[id]? with _ | h
  · simp [bind, Except.bind, throw, throwThe, MonadExceptOf.throw]
  · rcases waits : h.phase with _ | running | done <;>
      simp [bind, Except.bind, pure, Except.pure, throw, throwThe, MonadExceptOf.throw, waits] <;>
      rintro rfl <;> simp [waits]

theorem runningGroup_eq_ok {g : WorkGroup} :
    nd.runningGroup id = .ok (g, unit) ↔ nd.groups[id]? = some g ∧ g.phase = .running unit := by
  unfold runningGroup group
  rcases found : nd.groups[id]? with _ | h
  · simp [bind, Except.bind, throw, throwThe, MonadExceptOf.throw]
  · rcases runs : h.phase with _ | running | done <;>
      simp [bind, Except.bind, pure, Except.pure, throw, throwThe, MonadExceptOf.throw, runs] <;>
      rintro rfl <;> simp [runs]

/-! ## Starting a group -/

theorem getElem?_start {rest : List Nat} (found : nd.groups[g.id]? = some g) (id : Nat) :
    (({ nd with pending := rest } : NdRange).start g unit).groups[id]? =
      if id = g.id then some { g with phase := .running unit } else nd.groups[id]? :=
  getElem?_setPhase found id

/-- The group at the head of the queue leaves it and runs. -/
theorem Consistent.start {rest : List Nat} (consistent : nd.Consistent)
    (pending : nd.pending = g.id :: rest) (found : nd.groups[g.id]? = some g) :
    (({ nd with pending := rest } : NdRange).start g unit).Consistent where
  named id h here := by
    rw [getElem?_start found] at here
    by_cases same : id = g.id
    · rw [if_pos same] at here
      cases here
      exact same.symm
    · rw [if_neg same] at here
      exact consistent.named id h here
  distinct := by
    have distinct := consistent.distinct
    rw [pending] at distinct
    exact (List.nodup_cons.mp distinct).2
  waiting id := by
    have fresh := consistent.distinct
    have waiting := consistent.waiting id
    rw [pending] at fresh waiting
    rw [getElem?_start found]
    by_cases same : id = g.id
    · subst same
      rw [if_pos rfl]
      constructor
      · exact fun member => absurd member (List.nodup_cons.mp fresh).1
      · intro given
        rcases given with ⟨h, started, waits⟩
        cases started
        cases waits
    · rw [if_neg same]
      have other : id ∈ g.id :: rest ↔ id ∈ rest := by simp [same]
      exact other.symm.trans waiting

theorem sameShape_start {rest : List Nat} (found : nd.groups[g.id]? = some g) :
    (({ nd with pending := rest } : NdRange).start g unit).SameShape nd :=
  have shape : (({ nd with pending := rest } : NdRange).start g unit).SameShape
      { nd with pending := rest } := sameShape_setPhase found
  shape.trans ⟨rfl, rfl, rfl, rfl, rfl, rfl⟩

/-! ## Finishing a group -/

theorem getElem?_finish (found : nd.groups[g.id]? = some g) (id : Nat) :
    (nd.finish g unit).groups[id]? =
      if id = g.id then some { g with phase := .done unit } else nd.groups[id]? :=
  getElem?_setPhase found id

/-- A group that runs is done. -/
theorem Consistent.finish (consistent : nd.Consistent) (found : nd.groups[g.id]? = some g)
    (runs : g.phase ≠ .pending) : (nd.finish g unit).Consistent where
  named id h here := by
    rw [getElem?_finish found] at here
    by_cases same : id = g.id
    · rw [if_pos same] at here
      cases here
      exact same.symm
    · rw [if_neg same] at here
      exact consistent.named id h here
  distinct := consistent.distinct
  waiting id := by
    have waiting : id ∈ (nd.finish g unit).pending ↔ _ := consistent.waiting id
    rw [getElem?_finish found, waiting]
    by_cases same : id = g.id
    · subst same
      rw [if_pos rfl, found]
      simp [runs]
    · rw [if_neg same]

theorem sameShape_finish (found : nd.groups[g.id]? = some g) :
    (nd.finish g unit).SameShape nd := by
  have shape : (nd.setPhase g (.done unit)).SameShape nd := sameShape_setPhase found
  exact ⟨rfl, rfl, rfl, rfl, shape.groupCount, shape.wavefrontsOf⟩

/-! ## Closing a group -/

/-- A group is taken for done. -/
def close (nd : NdRange) (group : Nat) : NdRange :=
  { nd with
    groups := nd.groups.modify group fun g => { g with phase := g.phase.closed }
    doneCount := nd.doneCount + 1 }

/-- Several groups are taken for done, one after the other. -/
def closeAll (nd : NdRange) (groups : List Nat) : NdRange := groups.foldl close nd

/-- To finish a running group is to close it. -/
theorem finish_eq_close (found : nd.groups[g.id]? = some g) (runs : g.phase = .running unit) :
    nd.finish g unit = nd.close g.id := by
  have groups : (nd.finish g unit).groups = (nd.close g.id).groups := by
    refine Array.ext_getElem? fun id => ?_
    rw [getElem?_finish found, close, Array.getElem?_modify]
    by_cases same : id = g.id
    · simp [same, found, runs, Phase.closed]
    · simp [same, Ne.symm same]
  simp only [finish, setPhase, close] at groups ⊢
  rw [groups]

theorem close_comm (nd : NdRange) (first second : Nat) :
    (nd.close first).close second = (nd.close second).close first := by
  have groups : ((nd.close first).close second).groups =
      ((nd.close second).close first).groups := by
    refine Array.ext_getElem? fun id => ?_
    simp only [close, Array.getElem?_modify]
    by_cases here : first = id <;> by_cases there : second = id <;> simp [here, there]
  simp only [close] at groups ⊢
  rw [groups]

/-- It makes no difference in which order groups are closed. -/
theorem closeAll_perm {groups groups' : List Nat} (perm : groups.Perm groups') (nd : NdRange) :
    nd.closeAll groups = nd.closeAll groups' :=
  perm.foldl_eq' (fun first _ second _ nd => close_comm nd first second) nd

theorem pending_closeAll (nd : NdRange) (groups : List Nat) :
    (nd.closeAll groups).pending = nd.pending := by
  induction groups generalizing nd with
  | nil => rfl
  | cons group rest ih => exact ih (nd.close group)

theorem doneCount_closeAll (nd : NdRange) (groups : List Nat) :
    (nd.closeAll groups).doneCount = nd.doneCount + groups.length := by
  induction groups generalizing nd with
  | nil => rfl
  | cons group rest ih =>
      have counted : ((nd.close group).closeAll rest).doneCount = nd.doneCount + 1 + rest.length :=
        ih (nd.close group)
      rw [closeAll, List.foldl_cons, List.length_cons, ← closeAll, counted]
      omega

theorem getElem?_close (nd : NdRange) (group id : Nat) :
    (nd.close group).groups[id]? =
      nd.groups[id]?.map fun g => if id = group then { g with phase := g.phase.closed } else g := by
  rw [close, Array.getElem?_modify]
  by_cases same : id = group
  · simp [same]
  · simp [same, Ne.symm same]

theorem getElem?_closeAll (nd : NdRange) (groups : List Nat) (id : Nat) :
    (nd.closeAll groups).groups[id]? =
      nd.groups[id]?.map fun g => if id ∈ groups then { g with phase := g.phase.closed } else g := by
  induction groups generalizing nd with
  | nil => simp [closeAll]
  | cons group rest ih =>
      have later : ((nd.close group).closeAll rest).groups[id]? = _ := ih (nd.close group)
      rw [closeAll, List.foldl_cons, ← closeAll, later, getElem?_close, Option.map_map]
      refine congrArg (nd.groups[id]?.map ·) (funext fun g => ?_)
      by_cases same : id = group <;> by_cases member : id ∈ rest <;> simp [same, member]

theorem sameShape_closeAll (nd : NdRange) (groups : List Nat) :
    (nd.closeAll groups).SameShape nd := by
  induction groups generalizing nd with
  | nil => exact .refl nd
  | cons group rest ih =>
      refine (ih (nd.close group)).trans ⟨rfl, rfl, rfl, rfl, Array.size_modify, ?_⟩
      funext id
      rw [wavefrontsOf, wavefrontsOf, NdRange.group, NdRange.group, getElem?_close]
      rcases nd.groups[id]? with _ | g
      · rfl
      · by_cases same : id = group
        · simp only [Option.map_some, if_pos same]
          rfl
        · simp only [Option.map_some, if_neg same]
          rfl

/-- Whether the queue agrees with the table has nothing to do with closed groups. -/
theorem consistent_closeAll (nd : NdRange) (groups : List Nat) :
    (nd.closeAll groups).Consistent ↔ nd.Consistent := by
  have named : ∀ id : Nat,
      (∀ g : WorkGroup, (nd.closeAll groups).groups[id]? = some g → g.id = id) ↔
        ∀ g : WorkGroup, nd.groups[id]? = some g → g.id = id := by
    intro id
    rw [getElem?_closeAll]
    rcases nd.groups[id]? with _ | g
    · simp
    · by_cases member : id ∈ groups <;> simp [member]
  have waiting : ∀ id : Nat,
      (∃ g : WorkGroup, (nd.closeAll groups).groups[id]? = some g ∧ g.phase = .pending) ↔
        ∃ g : WorkGroup, nd.groups[id]? = some g ∧ g.phase = .pending := by
    intro id
    rw [getElem?_closeAll]
    rcases nd.groups[id]? with _ | g
    · simp
    · by_cases member : id ∈ groups <;> simp [member]
  constructor
  · intro consistent
    exact {
      named := fun id => (named id).mp (consistent.named id)
      distinct := nd.pending_closeAll groups ▸ consistent.distinct
      waiting := fun id => by rw [← waiting, ← consistent.waiting, pending_closeAll] }
  · intro consistent
    exact {
      named := fun id => (named id).mpr (consistent.named id)
      distinct := (nd.pending_closeAll groups).symm ▸ consistent.distinct
      waiting := fun id => by rw [waiting, ← consistent.waiting, pending_closeAll] }

/-- The other groups of a launch can change all the same. -/
theorem setPhase_closeAll (nd : NdRange) {g : WorkGroup} {groups : List Nat}
    (outside : g.id ∉ groups) (phase : Phase) :
    (nd.setPhase g phase).closeAll groups = (nd.closeAll groups).setPhase g phase := by
  induction groups generalizing nd with
  | nil => rfl
  | cons group rest ih =>
      obtain ⟨differs, outside⟩ := not_or.mp (mt List.mem_cons.mpr outside)
      have once : (nd.setPhase g phase).close group = (nd.close group).setPhase g phase := by
        have groups : ((nd.setPhase g phase).close group).groups =
            ((nd.close group).setPhase g phase).groups := by
          refine Array.ext_getElem? fun id => ?_
          simp only [setPhase, close, Array.getElem?_modify, Array.getElem?_setIfInBounds,
            Array.size_modify]
          by_cases here : group = id <;> by_cases there : g.id = id <;> simp [here, there]
          exact absurd (there.trans here.symm) differs
        simp only [setPhase, close] at groups ⊢
        rw [groups]
      exact (congrArg (closeAll · rest) once).trans (ih (nd.close group) outside)

theorem start_closeAll (nd : NdRange) {g : WorkGroup} {groups rest : List Nat}
    (outside : g.id ∉ groups) (unit : Nat) :
    (({ nd with pending := rest } : NdRange).start g unit).closeAll groups =
      ({ nd.closeAll groups with pending := rest } : NdRange).start g unit := by
  have queued : ∀ nd : NdRange, ({ nd with pending := rest } : NdRange).closeAll groups =
      { nd.closeAll groups with pending := rest } := by
    intro nd
    induction groups generalizing nd with
    | nil => rfl
    | cons group others ih => exact ih (fun member => outside (.tail _ member)) (nd.close group)
  exact (setPhase_closeAll _ outside _).trans (congrArg (setPhase · g (.running unit)) (queued nd))

theorem finish_closeAll {groups : List Nat} (outside : g.id ∉ groups)
    (found : nd.groups[g.id]? = some g) (runs : g.phase = .running unit) :
    (nd.finish g unit).closeAll groups = (nd.closeAll groups).finish g unit := by
  have still : (nd.closeAll groups).groups[g.id]? = some g := by
    rw [getElem?_closeAll, found, Option.map_some, if_neg outside]
  -- To finish the group is to close one more, and the order of closing makes no difference.
  rw [finish_eq_close found runs, finish_eq_close still runs]
  have perm : ([g.id] ++ groups).Perm (groups ++ [g.id]) := List.perm_append_comm
  have closed := closeAll_perm perm nd
  rwa [closeAll, closeAll, List.foldl_append, List.foldl_append] at closed

/-! ## A new launch -/

/-- A launch of `count` groups of `size` items each, in which every group waits. -/
def cut (launch id : Nat) (kernelName : String) (globalSize localSize : Dim3)
    (wavefrontSize count size : Nat) : NdRange where
  id
  launch
  kernelName
  globalSize
  localSize
  wavefrontSize
  wavefrontsPerGroup := ceilDiv size wavefrontSize
  groups := ((List.range count).map fun group =>
    { id := group
      index := (globalSize.div localSize).ofFlat group
      wavefronts :=
        ⟨group * ceilDiv size wavefrontSize, (group + 1) * ceilDiv size wavefrontSize⟩ }).toArray
  wavefronts := ((List.range count).flatMap
    (groupWavefronts wavefrontSize size (ceilDiv size wavefrontSize))).toArray
  pending := List.range count

/-- What is known of a launch that is accepted. -/
theorem create_eq_ok {launch : Nat} {kernelName : String} {globalSize localSize : Dim3}
    {wavefrontSize : Nat}
    (made : create launch id kernelName globalSize localSize wavefrontSize = .ok nd) :
    wavefrontSize ≠ 0 ∧ (axes globalSize localSize).forM checkAxis = .ok () ∧
      ∃ itemCount groupSize, checkSize "global" globalSize = .ok itemCount ∧
        checkSize "local" localSize = .ok groupSize ∧
        nd = cut launch id kernelName globalSize localSize wavefrontSize (itemCount / groupSize)
          groupSize := by
  unfold create at made
  split at made
  next => cases made
  next sized =>
      refine ⟨sized, ?_⟩
      rcases checked : (axes globalSize localSize).forM checkAxis with e | _
      · rw [checked] at made
        cases made
      rcases items : checkSize "global" globalSize with e | itemCount
      · rw [checked, items] at made
        cases made
      rcases group : checkSize "local" localSize with e | groupSize
      · rw [checked, items, group] at made
        cases made
      rw [checked, items, group] at made
      cases made
      exact ⟨rfl, itemCount, groupSize, rfl, rfl, rfl⟩

section Cut

variable {launch : Nat} {kernelName : String} {globalSize localSize : Dim3}
  {wavefrontSize count size : Nat}

theorem getElem?_groups_cut {i : Nat} {g : WorkGroup}
    (found : (cut launch id kernelName globalSize localSize wavefrontSize count size).groups[i]? =
      some g) :
    i < count ∧ g = {
      id := i
      index := (globalSize.div localSize).ofFlat i
      wavefronts := ⟨i * ceilDiv size wavefrontSize, (i + 1) * ceilDiv size wavefrontSize⟩ } := by
  simp only [cut, List.getElem?_toArray, List.getElem?_map, Option.map_eq_some_iff] at found
  obtain ⟨group, here, rfl⟩ := found
  obtain ⟨below, rfl⟩ := List.getElem?_eq_some_iff.mp here
  rw [List.length_range] at below
  rw [List.getElem_range]
  exact ⟨below, rfl⟩

theorem groups_cut_of_lt {i : Nat} (below : i < count) :
    (cut launch id kernelName globalSize localSize wavefrontSize count size).groups[i]? = some {
      id := i
      index := (globalSize.div localSize).ofFlat i
      wavefronts := ⟨i * ceilDiv size wavefrontSize, (i + 1) * ceilDiv size wavefrontSize⟩ } := by
  simp only [cut, List.getElem?_toArray, List.getElem?_map, List.getElem?_range below,
    Option.map_some]

theorem consistent_cut :
    (cut launch id kernelName globalSize localSize wavefrontSize count size).Consistent where
  named id g found := by
    obtain ⟨-, rfl⟩ := getElem?_groups_cut found
    rfl
  distinct := List.nodup_range
  waiting id := by
    constructor
    · intro waits
      exact ⟨_, groups_cut_of_lt (List.mem_range.mp waits), rfl⟩
    · intro given
      rcases given with ⟨g, found, -⟩
      exact List.mem_range.mpr (getElem?_groups_cut found).1

/-- The part of a table that belongs to one of several rows of equal length. -/
theorem extract_flatMap_range {α : Type} {row : Nat → List α} {width : Nat}
    (even : ∀ n, (row n).length = width) {n : Nat} (bound : n < count) :
    (((List.range count).flatMap row).toArray.extract (n * width) ((n + 1) * width)).toList =
      row n := by
  obtain ⟨k, rfl⟩ : ∃ k, count = n + (k + 1) := ⟨count - n - 1, by omega⟩
  have before : ((List.range n).flatMap row).length = n * width := by
    simp only [List.length_flatMap, even]
    rw [List.map_const', List.sum_replicate_nat, List.length_range]
  have split : (List.range (n + (k + 1))).flatMap row = (List.range n).flatMap row ++
      (row n ++ ((List.range k).map fun i => n + (i + 1)).flatMap row) := by
    rw [List.range_add, List.flatMap_append, List.range_succ_eq_map]
    simp [List.flatMap_map, Function.comp_def]
  rw [Array.toList_extract, List.extract_eq_take_drop, split, List.drop_left' before,
    Nat.add_mul, Nat.one_mul, Nat.add_sub_cancel_left, List.take_left' (even n)]

/-- The wavefronts of a group are those it was cut into. -/
theorem wavefrontsOf_cut {group : Nat} (bound : group < count) :
    (cut launch id kernelName globalSize localSize wavefrontSize count size).wavefrontsOf group =
      .ok (groupWavefronts wavefrontSize size (ceilDiv size wavefrontSize) group) := by
  have found : (cut launch id kernelName globalSize localSize wavefrontSize count
      size).group group = .ok {
        id := group
        index := (globalSize.div localSize).ofFlat group
        wavefronts := ⟨group * ceilDiv size wavefrontSize,
          (group + 1) * ceilDiv size wavefrontSize⟩ } := by
    simp [NdRange.group, cut, bound]
    rfl
  rw [wavefrontsOf, found]
  refine congrArg Except.ok (extract_flatMap_range (fun n => ?_) bound)
  simp [groupWavefronts]

end Cut

end NdRange

end Accelerator
