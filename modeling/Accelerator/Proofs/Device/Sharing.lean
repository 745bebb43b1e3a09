import Accelerator.Proofs.Device.Isolation

/-!
# Launches that devices share

While a run is interrupted another device can take up its launch. Each device then knows of its own
units only: a group that runs on a unit elsewhere is not handed out again, and nothing here ever
finishes it. So a device treats such a launch as if the groups elsewhere were done already, and what
it does is what it would do in that case (`Shares.runWithin`).
-/

namespace Accelerator

/-- The groups on the units of a device, each with the number of its unit. -/
def Device.holding {ι μ π : Type} (d : Device ι μ π) : List (Nat × Nat) :=
  d.units.filterMap fun u => u.group.map fun group => (u.id, group)

/-- Of a launch just the groups of some pairs run, each on the unit of its pair. -/
structure NdRange.Spread (nd : NdRange) (held : List (Nat × Nat)) : Prop where
  consistent : nd.Consistent
  distinct : (held.map (·.2)).Nodup
  running : ∀ unit group, (unit, group) ∈ held ↔
    ∃ g, nd.groups[group]? = some g ∧ g.phase = .running unit
  counted : nd.pending.length + held.length + nd.doneCount = nd.groupCount

theorem NdRange.Spread.perm {nd : NdRange} {held held' : List (Nat × Nat)} (spread : nd.Spread held)
    (perm : held.Perm held') : nd.Spread held' where
  consistent := spread.consistent
  distinct := (perm.map _).nodup_iff.mp spread.distinct
  running unit group := perm.mem_iff.symm.trans (spread.running unit group)
  counted := perm.length_eq ▸ spread.counted

namespace Job

open Attempt

variable {ι μ π : Type} {elsewhere : List (Nat × Nat)} {job after : Job ι μ π}

/-! ## What a device has of a launch -/

/-- The job as it would be if the groups that units elsewhere hold were done. -/
def own (job : Job ι μ π) (elsewhere : List (Nat × Nat)) : Job ι μ π :=
  { job with launch := job.launch.closeAll (elsewhere.map (·.2)) }

/-- Some groups of the launch run on units elsewhere, and the device agrees with the launch about
all others. -/
structure Shares [Placement π] (elsewhere : List (Nat × Nat)) (job : Job ι μ π) : Prop where
  owned : (job.own elsewhere).Owned
  running : ∀ unit group, (unit, group) ∈ elsewhere → job.Runs unit group
  distinct : (elsewhere.map (·.2)).Nodup

theorem canDispatch_own (job : Job ι μ π) (elsewhere : List (Nat × Nat)) :
    (job.own elsewhere).canDispatch = job.canDispatch := by
  rw [canDispatch, canDispatch, NdRange.hasPending, NdRange.hasPending]
  exact congrArg (!job.device.idle.isEmpty && !·.isEmpty) (NdRange.pending_closeAll ..)

section Changes

variable [Placement π] {unit : Nat} {u : ComputeUnit} {g : WorkGroup}

/-- A group that waits or runs for the device is one of the launch, and not elsewhere. -/
theorem Shares.found (shares : job.Shares elsewhere)
    (found : (job.own elsewhere).launch.groups[g.id]? = some g)
    (undone : ∀ unit, g.phase ≠ .done unit) :
    g.id ∉ elsewhere.map (·.2) ∧ job.launch.groups[g.id]? = some g := by
  have found : (job.launch.closeAll (elsewhere.map (·.2))).groups[g.id]? = some g := found
  rw [NdRange.getElem?_closeAll, Option.map_eq_some_iff] at found
  obtain ⟨h, here, same⟩ := found
  by_cases member : g.id ∈ elsewhere.map (·.2)
  · -- A group elsewhere runs, and so it would be shown as done.
    obtain ⟨⟨unit, group⟩, held, named⟩ := List.mem_map.mp member
    obtain ⟨h', there, runs⟩ := shares.running unit group held
    dsimp only at named
    rw [named, here] at there
    cases there
    rw [if_pos member] at same
    refine absurd ?_ (undone unit)
    rw [← same, runs]
    rfl
  · rw [if_neg member] at same
    exact ⟨member, here.trans (congrArg some same)⟩

/-- What changes no group elsewhere leaves the launch shared, if the device still agrees with the
launch about its own groups. -/
theorem Shares.of_owned (shares : job.Shares elsewhere) (owned : (after.own elsewhere).Owned)
    (kept : ∀ group ∈ elsewhere.map (·.2),
      after.launch.groups[group]? = job.launch.groups[group]?) : after.Shares elsewhere where
  owned
  running unit group held := by
    obtain ⟨g, found, runs⟩ := shares.running unit group held
    exact ⟨g, (kept group (List.mem_map_of_mem held)).trans found, runs⟩
  distinct := shares.distinct

theorem Shares.withDevice (shares : job.Shares elsewhere) {device : Device ι μ π}
    (units : device.cluster.units = job.device.cluster.units) (idle : device.idle = job.device.idle)
    (busy : device.busy = job.device.busy) (placement : device.placement = job.device.placement) :
    ({ job with device } : Job ι μ π).Shares elsewhere :=
  shares.of_owned (shares.owned.congr units idle busy placement) fun _ _ => rfl

/-! ## Dispatch -/

/-- The group and the unit that a dispatch finds are the device's own. -/
theorem Shares.deal {placement : π} {rest : List Nat} {wavefronts : List Wavefront}
    (shares : job.Shares elsewhere)
    (deal : (job.own elsewhere).Deal placement unit u g rest wavefronts) :
    job.Deal placement unit u g rest wavefronts ∧
      (job.handed placement unit u g rest wavefronts).own elsewhere =
        (job.own elsewhere).handed placement unit u g rest wavefronts ∧
      (job.handed placement unit u g rest wavefronts).Shares elsewhere := by
  obtain ⟨outside, found⟩ := shares.found deal.found (by simp [deal.waits])
  have same : (job.handed placement unit u g rest wavefronts).own elsewhere =
      (job.own elsewhere).handed placement unit u g rest wavefronts :=
    congrArg (Job.mk _) (NdRange.start_closeAll job.launch outside unit)
  refine ⟨{
    picked := deal.picked
    reliable := deal.reliable
    isIdle := deal.isIdle
    pending := (NdRange.pending_closeAll ..).symm.trans deal.pending
    found
    waits := deal.waits
    listed := by
      rw [← (NdRange.sameShape_closeAll job.launch (elsewhere.map (·.2))).wavefrontsOf]
      exact deal.listed
    resident := deal.resident
    free := deal.free }, same, shares.of_owned ?_ fun group member => ?_⟩
  · rw [same]
    exact deal.hands.owned shares.owned
  · have differs : group ≠ g.id := fun here => outside (here ▸ member)
    exact (NdRange.getElem?_start found group).trans (if_neg differs)

theorem Shares.dispatchUpTo (shares : job.Shares elsewhere) (limit : Nat) :
    ∃ count after, (dispatchUpTo limit).outcome job = (.ok count, after) ∧
      (dispatchUpTo limit).outcome (job.own elsewhere) = (.ok count, after.own elsewhere) ∧
      after.Shares elsewhere := by
  induction limit generalizing job with
  | zero => exact ⟨0, job, rfl, rfl, shares⟩
  | succ limit ih =>
      have same := job.canDispatch_own elsewhere
      cases possible : job.canDispatch with
      | false =>
          exact ⟨0, job, dispatchUpTo_of_full possible _,
            dispatchUpTo_of_full (same.trans possible) _, shares⟩
      | true =>
          obtain ⟨_, _, _, _, _, _, given⟩ := shares.owned.deal (same.trans possible)
          obtain ⟨deal, handed, shares'⟩ := shares.deal given
          obtain ⟨count, after, others, others', shares''⟩ := ih shares'
          have first := given.outcome
          rw [← handed] at first
          exact ⟨count + 1, after, dispatchUpTo_succ possible deal.outcome others,
            dispatchUpTo_succ (same.trans possible) first others', shares''⟩

/-! ## Work -/

variable [InstructionModel ι] [MemoryService μ]

/-- The group on which a unit works is the device's own. -/
theorem Shares.task (shares : job.Shares elsewhere) (task : (job.own elsewhere).Task unit u g) :
    job.Task unit u g ∧
      (job.stepped unit u g).own elsewhere = (job.own elsewhere).stepped unit u g ∧
      (job.stepped unit u g).Shares elsewhere := by
  obtain ⟨outside, found⟩ := shares.found task.found (by simp [task.runs])
  have same : (job.stepped unit u g).own elsewhere = (job.own elsewhere).stepped unit u g := by
    rcases job.stepped_cases unit u g with ⟨drained, stepped⟩ | ⟨going_on, stepped⟩
    · have stepped' : (job.own elsewhere).stepped unit u g = _ := if_pos drained
      rw [stepped, stepped']
      exact congrArg (Job.mk _) (NdRange.finish_closeAll outside found task.runs)
    · have stepped' : (job.own elsewhere).stepped unit u g = _ :=
        if_neg (ne_true_of_eq_false going_on)
      rw [stepped, stepped']
      rfl
  refine ⟨⟨task.isBusy, task.resident, task.sound, task.held, found, task.runs⟩, same,
    shares.of_owned ?_ fun group member => ?_⟩
  · rw [same]
    exact task.works.owned shares.owned
  · have differs : group ≠ g.id := fun here => outside (here ▸ member)
    rw [getElem?_groups_stepped found, if_neg fun both => differs both.1]

theorem Shares.stepUnit (shares : job.Shares elsewhere)
    (busy : job.device.busy.contains unit = true) :
    ∃ after, (Job.stepUnit unit).outcome job = (.ok (), after) ∧
      (Job.stepUnit unit).outcome (job.own elsewhere) = (.ok (), after.own elsewhere) ∧
      after.Shares elsewhere := by
  obtain ⟨_, _, given⟩ := shares.owned.task busy
  obtain ⟨task, stepped, shares'⟩ := shares.task given
  exact ⟨_, task.outcome, stepped ▸ given.outcome, shares'⟩

end Changes

/-! ## Whole runs -/

section Runs

variable [Placement π]

/-- The second job is the first, with the groups elsewhere taken for done. -/
def Beside (elsewhere : List (Nat × Nat)) (job other : Job ι μ π) : Prop :=
  job.Shares elsewhere ∧ other = job.own elsewhere

/-- What is done to the device alone has nothing to do with groups elsewhere. -/
theorem matches_own_modifyDevice {change : Device ι μ π → Device ι μ π}
    (units : ∀ d, (change d).cluster.units = d.cluster.units) (idle : ∀ d, (change d).idle = d.idle)
    (busy : ∀ d, (change d).busy = d.busy) (placement : ∀ d, (change d).placement = d.placement) :
    Matches (Beside elsewhere) Eq (modifyDevice change) (modifyDevice change) := by
  apply matches_modify
  rintro job _ ⟨shares, rfl⟩
  exact ⟨shares.withDevice (units _) (idle _) (busy _) (placement _), rfl⟩

theorem matches_own_begin :
    Matches (Beside (ι := ι) (μ := μ) (π := π) elsewhere) Eq begin begin := by
  apply matches_get
  rintro job _ ⟨-, rfl⟩
  have shape := NdRange.sameShape_closeAll job.launch (elsewhere.map (·.2))
  have launch : (job.own elsewhere).launch.launch = job.launch.launch := shape.launch
  have id : (job.own elsewhere).launch.id = job.launch.id := shape.id
  have wavefrontSize : (job.own elsewhere).launch.wavefrontSize = job.launch.wavefrontSize :=
    shape.wavefrontSize
  have groupSize : (job.own elsewhere).launch.groupSize = job.launch.groupSize :=
    congrArg Dim3.volume shape.localSize
  have active : (job.own elsewhere).device.active = job.device.active := rfl
  simp only [launch, id, wavefrontSize, groupSize, active]
  rcases job.device.active with _ | active
  · exact Matches.ite Iff.rfl (matches_throw _) <| Matches.ite Iff.rfl (matches_throw _) <|
      matches_own_modifyDevice (fun _ => rfl) (fun _ => rfl) (fun _ => rfl) fun _ => rfl
  · exact Matches.ite Iff.rfl (matches_throw _) (matches_pure rfl)

theorem matches_own_place :
    Matches (Beside (ι := ι) (μ := μ) (π := π) elsewhere) Eq place place := by
  rintro job _ ⟨shares, rfl⟩
  rw [place_outcome, place_outcome, canDispatch_own]
  cases job.canDispatch with
  | false => exact ⟨.ok rfl, shares, rfl⟩
  | true =>
      obtain ⟨count, after, here, there, shares'⟩ :=
        shares.dispatchUpTo job.device.idle.size
      have dispatched : dispatch.outcome job = (.ok count, after) := here
      have dispatched' : dispatch.outcome (job.own elsewhere) = (.ok count, after.own elsewhere) :=
        there
      rw [if_pos rfl, if_pos rfl, outcome_bind_of_ok dispatched, outcome_bind_of_ok dispatched']
      exact ⟨.ok rfl, shares', rfl⟩

theorem matches_own_flush :
    Matches (Beside (ι := ι) (μ := μ) (π := π) elsewhere) Eq flush flush :=
  matches_own_modifyDevice (fun _ => rfl) (fun _ => rfl) (fun _ => rfl) fun _ => rfl

theorem matches_own_suspend :
    Matches (Beside (ι := ι) (μ := μ) (π := π) elsewhere) Eq suspend suspend := by
  refine matches_own_flush.andThen (matches_get ?_)
  rintro job _ ⟨-, rfl⟩
  exact matches_pure rfl

theorem matches_own_finish :
    Matches (Beside (ι := ι) (μ := μ) (π := π) elsewhere) Eq finish finish := by
  refine Matches.andThen ?_ (matches_own_flush.andThen (matches_get ?_))
  · exact matches_own_modifyDevice (fun _ => rfl) (fun _ => rfl) (fun _ => rfl) fun _ => rfl
  · rintro job _ ⟨-, rfl⟩
    exact matches_pure rfl

variable [InstructionModel ι] [MemoryService μ]

theorem matches_own_stepUnit (unit : Nat) :
    Matches (Beside (ι := ι) (μ := μ) (π := π) elsewhere) Eq (stepUnit unit) (stepUnit unit) := by
  rintro job _ ⟨shares, rfl⟩
  cases busy : job.device.busy.contains unit with
  | false =>
      have busy' : (job.own elsewhere).device.busy.contains unit = false := busy
      rw [stepUnit_outcome_of_idle busy, stepUnit_outcome_of_idle busy']
      exact ⟨.error _, shares, rfl⟩
  | true =>
      obtain ⟨after, stepped, stepped', shares'⟩ := shares.stepUnit busy
      rw [stepped, stepped']
      exact ⟨.ok rfl, shares', rfl⟩

theorem matches_own_advance :
    Matches (Beside (ι := ι) (μ := μ) (π := π) elsewhere) Eq advance advance := by
  refine Matches.andThen ?_ (matches_get ?_)
  · exact matches_own_modifyDevice (fun _ => rfl) (fun _ => rfl) (fun _ => rfl) fun _ => rfl
  · rintro job _ ⟨-, rfl⟩
    exact Matches.forM matches_own_stepUnit _

theorem matches_own_runWithin (budget : Option Nat) :
    Matches (Beside (ι := ι) (μ := μ) (π := π) elsewhere) Eq (runWithin budget)
      (runWithin budget) := by
  rw [runWithin_eq_runWith]
  refine matches_runWith (fun beside => ?_) matches_own_begin fun room => ?_
  · rw [beside.2]
    rfl
  · refine matches_driveWith (fun beside => ?_) matches_own_place matches_own_advance
      matches_own_finish matches_own_suspend room budget
    rw [beside.2]
    rfl

/-- A run of a launch that is shared has the same answer as one with the groups elsewhere taken for
done, and leaves the same job, except that these groups still run. -/
theorem Shares.runWithin (shares : job.Shares elsewhere) (budget : Option Nat) :
    ∃ answer after, (Job.runWithin budget).outcome job = (answer, after) ∧
      (Job.runWithin budget).outcome (job.own elsewhere) = (answer, after.own elsewhere) ∧
      after.Shares elsewhere := by
  obtain ⟨agree, shares', same⟩ := matches_own_runWithin budget job _ ⟨shares, rfl⟩
  exact ⟨_, _, rfl, Prod.ext agree.eq.symm same, shares'⟩

end Runs

/-! ## Who holds what -/

section Holding

variable [Placement π] {unit group : Nat}

theorem Owned.mem_holding (owned : job.Owned) :
    (unit, group) ∈ job.device.holding ↔ job.Holds unit group := by
  simp only [Device.holding, Device.units, List.mem_filterMap, Option.map_eq_some_iff,
    Prod.mk.injEq]
  constructor
  · intro given
    rcases given with ⟨u, member, _, held, rfl, rfl⟩
    obtain ⟨index, found⟩ := List.getElem?_of_mem member
    rw [Array.getElem?_toList] at found
    exact ⟨u, owned.numbered index u found ▸ found, held⟩
  · intro given
    rcases given with ⟨u, found, held⟩
    refine ⟨u, ?_, group, held, owned.numbered unit u found, rfl⟩
    rw [← Array.getElem?_toList] at found
    exact List.mem_of_getElem? found

theorem Owned.length_holding (owned : job.Owned) :
    job.device.holding.length = job.device.busy.size := by
  rw [owned.size_busy, Device.holding, List.length_filterMap_eq_countP,
    List.countP_eq_length_filter]
  simp [ComputeUnit.isBusy]

/-- No two units hold the same group. -/
theorem Owned.nodup_holding (owned : job.Owned) : (job.device.holding.map (·.2)).Nodup := by
  have numbers : job.device.holding.map (·.1) =
      (job.device.units.filter (·.isBusy)).map (·.id) := by
    rw [Device.holding, List.map_filterMap, ← List.filterMap_eq_map, List.filterMap_filter]
    refine List.filterMap_congr fun u _ => ?_
    rcases held : u.group with _ | group <;> simp [ComputeUnit.isBusy, held]
  have distinct : job.device.holding.Nodup := .of_map (·.1) (numbers ▸ owned.nodup_map_id _)
  refine distinct.map_on ?_
  rintro ⟨unit, group⟩ here ⟨unit', _⟩ there rfl
  have runs := (owned.owners unit group).mp (owned.mem_holding.mp here)
  have runs' := (owned.owners unit' group).mp (owned.mem_holding.mp there)
  rw [runs.unit_eq runs']

/-- A device shares a launch if its own units hold the groups that do not run elsewhere. -/
theorem Owned.shares (owned : job.Owned) {nd : NdRange}
    (spread : nd.Spread (job.device.holding ++ elsewhere)) :
    ({ job with launch := nd } : Job ι μ π).Shares elsewhere := by
  have distinct := spread.distinct
  rw [List.map_append] at distinct
  have apart : ∀ {unit group}, (unit, group) ∈ job.device.holding →
      group ∉ elsewhere.map (·.2) := by
    intro unit group held member
    exact List.disjoint_of_nodup_append distinct (List.mem_map_of_mem held) member
  refine {
    owned := owned.withLaunch ((nd.consistent_closeAll _).mpr spread.consistent)
      (fun unit group => ?_) ?_
    running := fun unit group held => (spread.running unit group).mp (List.mem_append_right _ held)
    distinct := distinct.of_append_right }
  · rw [← owned.mem_holding]
    simp only [Runs, NdRange.getElem?_closeAll, Option.map_eq_some_iff]
    constructor
    · intro held
      obtain ⟨g, found, runs⟩ := (spread.running unit group).mp (List.mem_append_left _ held)
      exact ⟨g, ⟨g, found, if_neg (apart held)⟩, runs⟩
    · intro given
      rcases given with ⟨_, ⟨g, found, rfl⟩, runs⟩
      by_cases member : group ∈ elsewhere.map (·.2)
      · rw [if_pos member] at runs
        exact absurd runs (g.phase.closed_ne_running unit)
      · rw [if_neg member] at runs
        rcases List.mem_append.mp ((spread.running unit group).mpr ⟨g, found, runs⟩) with held | held
        · exact held
        · exact absurd (List.mem_map_of_mem held) member
  · -- The groups elsewhere are counted as done, and all others as before.
    have counted := spread.counted
    rw [List.length_append, owned.length_holding] at counted
    show (nd.closeAll _).pending.length + job.device.busy.size + (nd.closeAll _).doneCount = _
    rw [NdRange.pending_closeAll, NdRange.doneCount_closeAll, List.length_map,
      (nd.sameShape_closeAll _).groupCount]
    omega

/-- What runs of a shared launch is on the units of the device or elsewhere. -/
theorem Shares.spread (shares : job.Shares elsewhere) :
    job.launch.Spread (job.device.holding ++ elsewhere) := by
  have owned := shares.owned
  have held : ∀ {unit group}, (unit, group) ∈ job.device.holding →
      group ∉ elsewhere.map (·.2) ∧ job.Runs unit group := by
    intro unit group held
    obtain ⟨g, found, runs⟩ := (owned.owners unit group).mp (owned.mem_holding.mp held)
    cases owned.launch.named group g found
    obtain ⟨outside, found⟩ := shares.found found (by simp [runs])
    exact ⟨outside, g, found, runs⟩
  refine {
    consistent := (job.launch.consistent_closeAll _).mp owned.launch
    distinct := ?_
    running := fun unit group => ⟨fun member => ?_, fun runs => ?_⟩
    counted := ?_ }
  · rw [List.map_append, List.nodup_append']
    refine ⟨owned.nodup_holding, shares.distinct, fun group here there => ?_⟩
    obtain ⟨⟨unit, _⟩, member, rfl⟩ := List.mem_map.mp here
    exact (held member).1 there
  · rcases List.mem_append.mp member with here | there
    · exact (held here).2
    · exact shares.running unit group there
  · rw [List.mem_append]
    by_cases member : group ∈ elsewhere.map (·.2)
    · obtain ⟨⟨unit', _⟩, there, rfl⟩ := List.mem_map.mp member
      have here : job.Runs unit _ := runs
      cases here.unit_eq (shares.running unit' _ there)
      exact .inr there
    · obtain ⟨g, found, running⟩ := runs
      refine .inl (owned.mem_holding.mpr ((owned.owners unit group).mpr ⟨g, ?_, running⟩))
      show (job.launch.closeAll _).groups[group]? = some g
      rw [NdRange.getElem?_closeAll, found, Option.map_some, if_neg member]
  · have counted := owned.counted
    have shape := job.launch.sameShape_closeAll (elsewhere.map (·.2))
    rw [← owned.length_holding] at counted
    simp only [own, NdRange.pending_closeAll, NdRange.doneCount_closeAll, List.length_map,
      shape.groupCount] at counted
    rw [List.length_append]
    omega

end Holding

end Job

end Accelerator
