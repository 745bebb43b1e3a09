import Accelerator.Proofs.Device.Sharing

/-!
# Several devices and several launches

A launch whose run is interrupted on one device can be taken up by another, which runs the groups
that still wait. A run is over when no unit of its own device is busy, so it can be over while
groups are still on units of a device that was interrupted. This is the only way in which a run
completes with groups undone, and these are the only groups it leaves
(`completed_unless_held_elsewhere`).
-/

namespace Accelerator

/-! ## A device and a launch -/

namespace Device

variable {ι μ π : Type} {d : Device ι μ π} {nd nd' : NdRange}

/-- The device is at work on the launch. -/
def WorksOn (d : Device ι μ π) (nd : NdRange) : Prop :=
  d.active = some { launch := nd.launch, id := nd.id }

instance (d : Device ι μ π) (nd : NdRange) : Decidable (d.WorksOn nd) :=
  inferInstanceAs (Decidable (d.active = _))

/-- The device is at work on the launch, or free. -/
def Admits (d : Device ι μ π) (nd : NdRange) : Prop :=
  d.WorksOn nd ∨ d.active = none ∧ d.busy.isEmpty = true

/-- The groups of a launch that are on the units of a device, each with the number of its unit. -/
def share (d : Device ι μ π) (nd : NdRange) : List (Nat × Nat) :=
  if d.WorksOn nd then d.holding else []

theorem not_worksOn_of_free (free : d.active = none) : ¬ d.WorksOn nd := by
  rw [WorksOn, free]
  exact nofun

theorem WorksOn.congr (works : d.WorksOn nd) (launch : nd'.launch = nd.launch)
    (id : nd'.id = nd.id) : d.WorksOn nd' := by
  rwa [WorksOn, launch, id]

theorem share_congr (launch : nd'.launch = nd.launch) (id : nd'.id = nd.id) (d : Device ι μ π) :
    d.share nd' = d.share nd := by
  by_cases works : d.WorksOn nd
  · rw [share, share, if_pos works, if_pos (works.congr launch id)]
  · rw [share, share, if_neg works, if_neg fun here => works (here.congr launch.symm id.symm)]

/-- What is on the units of a device belongs to the launch that it admits. -/
theorem Admits.share_eq (admits : d.Admits nd)
    (nothing : d.busy.isEmpty = true → d.holding = []) : d.share nd = d.holding := by
  rcases admits with works | ⟨free, rests⟩
  · exact if_pos works
  · rw [share, if_neg (not_worksOn_of_free free), nothing rests]

theorem Admits.share_of_ne (admits : d.Admits nd) (differs : nd.launch ≠ nd'.launch) :
    d.share nd' = [] := by
  refine if_neg fun works => ?_
  rcases admits with here | ⟨free, -⟩
  · have same := Option.some.inj (here.symm.trans works)
    exact differs (congrArg ActiveLaunch.launch same)
  · exact not_worksOn_of_free free works

end Device

/-! ## Devices and launches -/

/-- Several devices, and the launches that a driver has for them. -/
structure Fleet (ι μ π : Type) where
  devices : List (Device ι μ π)
  launches : List NdRange

namespace Fleet

variable {ι μ π : Type}

/-- The groups of a launch that are on units. -/
def holding (f : Fleet ι μ π) (nd : NdRange) : List (Nat × Nat) := f.devices.flatMap (·.share nd)

/-- The groups of a launch that are on units of other devices than the one at a position. -/
def elsewhere (f : Fleet ι μ π) (k : Nat) (nd : NdRange) : List (Nat × Nat) :=
  (f.devices.eraseIdx k).flatMap (·.share nd)

/-- A device at another position is at work on the launch, and one of its units holds a group. -/
def HeldElsewhere (f : Fleet ι μ π) (k : Nat) (nd : NdRange) (unit group : Nat) : Prop :=
  ∃ (j : Nat) (d : Device ι μ π), j ≠ k ∧ f.devices[j]? = some d ∧ d.WorksOn nd ∧
    ∃ u, d.cluster.units[unit]? = some u ∧ u.group = some group

variable [InstructionModel ι] [MemoryService μ] [Placement π]

/-- Run a launch on a device, with a budget of cycles or without one. It may be refused. -/
def run (f : Fleet ι μ π) (k i : Nat) (budget : Option Nat) : Fleet ι μ π :=
  match f.devices[k]?, f.launches[i]? with
  | some device, some launch =>
    let after := ((Job.runWithin budget).outcome ({ device, launch } : Job ι μ π)).2
    { devices := f.devices.set k after.device, launches := f.launches.set i after.launch }
  | _, _ => f

/-- The fleet after several runs. -/
def afterRuns (f : Fleet ι μ π) (runs : List (Nat × Nat × Option Nat)) : Fleet ι μ π :=
  runs.foldl (fun f call => f.run call.1 call.2.1 call.2.2) f

/-! ## What is where -/

/-- Every device agrees with itself about its units, and is at work on one of the launches, or free;
and what runs of a launch is on units of the devices at work on it. -/
structure Settled (f : Fleet ι μ π) : Prop where
  owned : ∀ d ∈ f.devices, ∃ launch, ({ device := d, launch } : Job ι μ π).Owned
  staffed : ∀ d ∈ f.devices, 0 < d.cluster.units.size
  engaged : ∀ d ∈ f.devices, (d.active = none ∧ d.busy.isEmpty = true) ∨
    ∃ (i : Nat) (nd : NdRange), f.launches[i]? = some nd ∧ d.WorksOn nd
  spread : ∀ (i : Nat) (nd : NdRange), f.launches[i]? = some nd → nd.Spread (f.holding nd)
  distinct : (f.launches.map (·.launch)).Nodup

variable {f : Fleet ι μ π} {k i j : Nat} {d other : Device ι μ π} {nd nd' : NdRange}

section Holding

omit [InstructionModel ι] [MemoryService μ] [Placement π]

/-- What is on units is on those of one device or elsewhere. -/
theorem holding_perm (found : f.devices[k]? = some d) :
    (f.holding nd).Perm (d.share nd ++ f.elsewhere k nd) := by
  obtain ⟨inside, rfl⟩ := List.getElem?_eq_some_iff.mp found
  exact (List.getElem_cons_eraseIdx_perm inside).symm.flatMap_right _

/-- When a device changes, all else stays where it is. -/
theorem holding_set_perm (found : f.devices[k]? = some d) (launches : List NdRange) :
    (({ devices := f.devices.set k other, launches } : Fleet ι μ π).holding nd).Perm
      (other.share nd ++ f.elsewhere k nd) :=
  (List.set_perm_cons_eraseIdx (List.getElem?_eq_some_iff.mp found).1 other).flatMap_right _

end Holding

omit [InstructionModel ι] [MemoryService μ] in
theorem Settled.mem_elsewhere (settled : f.Settled) {unit group : Nat} :
    (unit, group) ∈ f.elsewhere k nd ↔ f.HeldElsewhere k nd unit group := by
  have share : ∀ d ∈ f.devices, (unit, group) ∈ d.share nd ↔
      d.WorksOn nd ∧ ∃ u, d.cluster.units[unit]? = some u ∧ u.group = some group := by
    intro d member
    obtain ⟨launch, owned⟩ := settled.owned d member
    have holds : (unit, group) ∈ d.holding ↔ _ := owned.mem_holding
    rw [Device.share]
    split
    next works => exact holds.trans (and_iff_right works).symm
    next idle => simp [idle]
  simp only [elsewhere, List.mem_flatMap, List.mem_eraseIdx_iff_getElem?, HeldElsewhere]
  constructor
  · intro given
    rcases given with ⟨d, ⟨j, differs, found⟩, here⟩
    exact ⟨j, d, differs, found, (share d (List.mem_of_getElem? found)).mp here⟩
  · intro given
    rcases given with ⟨j, d, differs, found, here⟩
    exact ⟨d, ⟨j, differs, found⟩, (share d (List.mem_of_getElem? found)).mpr here⟩

/-! ## A run keeps it so -/

omit [InstructionModel ι] [MemoryService μ] in
/-- A device without busy units has nothing on its units. -/
theorem holding_of_rests {launch : NdRange} (owned : ({ device := d, launch } : Job ι μ π).Owned)
    (rests : d.busy.isEmpty = true) : d.holding = [] :=
  List.length_eq_zero_iff.mp (owned.length_holding.trans (owned.size_busy_of_isEmpty rests))

/-- A run of a launch is refused, or finds the launch shared between its device and the others. -/
theorem Settled.refused_or_shares (settled : f.Settled) (device : f.devices[k]? = some d)
    (launch : f.launches[i]? = some nd) :
    (∃ e, ∀ budget : Option Nat, (Job.runWithin budget).outcome ⟨d, nd⟩ = (.error e, ⟨d, nd⟩)) ∨
      ((⟨d, nd⟩ : Job ι μ π).Shares (f.elsewhere k nd) ∧ d.Admits nd) := by
  obtain ⟨origin, owned⟩ := settled.owned d (List.mem_of_getElem? device)
  have shared : d.Admits nd → (⟨d, nd⟩ : Job ι μ π).Shares (f.elsewhere k nd) := by
    intro admits
    have whole := admits.share_eq (holding_of_rests owned)
    exact owned.shares ((settled.spread i nd launch).perm (whole ▸ holding_perm device))
  rcases settled.engaged d (List.mem_of_getElem? device) with free | ⟨j, nd', there, works⟩
  · exact .inr ⟨shared (.inr free), .inr free⟩
  · by_cases same : nd'.launch = nd.launch
    · cases NdRange.position_eq settled.distinct there launch same
      cases there.symm.trans launch
      exact .inr ⟨shared (.inl works), .inl works⟩
    · have under_way : (⟨d, nd⟩ : Job ι μ π).device.active =
          some { launch := nd'.launch, id := nd'.id } := works
      exact .inl ⟨_, Job.runWithin_of_other under_way same⟩

/-- A run that is not refused leaves the launch shared, and its device at work on it or free. -/
theorem admits_of_runWithin {after : Job ι μ π} {elsewhere : List (Nat × Nat)}
    {budget : Option Nat} {answer : Except Error Outcome}
    (shares : (⟨d, nd⟩ : Job ι μ π).Shares elsewhere) (admits : d.Admits nd)
    (done : (Job.runWithin budget).outcome ((⟨d, nd⟩ : Job ι μ π).own elsewhere) =
      (answer, after.own elsewhere)) :
    after.launch.SameShape nd ∧ after.device.Admits nd ∧
      after.device.cluster.units.size = d.cluster.units.size := by
  have shape := nd.sameShape_closeAll (elsewhere.map (·.2))
  have serves := Job.keeps_serves_runWithin nd budget _ ⟨shares.owned, shape, admits⟩
  have size := (Job.keeps_size_runWithin _ budget _ ⟨shares.owned, rfl⟩).2
  rw [done] at serves size
  exact ⟨(after.launch.sameShape_closeAll _).symm.trans serves.shape, serves.active, size⟩

omit [InstructionModel ι] [MemoryService μ] in
/-- After a run that was not refused everything is where it should be. -/
theorem Settled.set (settled : f.Settled) (device : f.devices[k]? = some d)
    (launch : f.launches[i]? = some nd) (admits : d.Admits nd) {after : Job ι μ π}
    (shares : after.Shares (f.elsewhere k nd)) (shape : after.launch.SameShape nd)
    (admits' : after.device.Admits nd)
    (size : after.device.cluster.units.size = d.cluster.units.size) :
    ({ devices := f.devices.set k after.device, launches := f.launches.set i after.launch } :
      Fleet ι μ π).Settled := by
  have here : (f.launches.set i after.launch)[i]? = some after.launch :=
    List.getElem?_set_self (List.getElem?_eq_some_iff.mp launch).1
  have listed : ∀ (d : Device ι μ π) (j : Nat) (nd' : NdRange), f.launches[j]? = some nd' →
      d.WorksOn nd' → ∃ (j : Nat) (nd : NdRange),
        (f.launches.set i after.launch)[j]? = some nd ∧ d.WorksOn nd := by
    intro d j nd' found works
    by_cases same : j = i
    · subst same
      cases launch.symm.trans found
      exact ⟨j, _, here, works.congr shape.launch shape.id⟩
    · exact ⟨j, nd', (List.getElem?_set_ne (Ne.symm same)).trans found, works⟩
  refine {
    owned := fun d' member => ?_, staffed := fun d' member => ?_, engaged := fun d' member => ?_
    spread := fun j nd' found => ?_
    distinct := NdRange.map_launch_set launch shape.launch ▸ settled.distinct }
  · rcases List.mem_or_eq_of_mem_set member with member | rfl
    · exact settled.owned d' member
    · exact ⟨_, shares.owned⟩
  · rcases List.mem_or_eq_of_mem_set member with member | rfl
    · exact settled.staffed d' member
    · exact size ▸ settled.staffed d (List.mem_of_getElem? device)
  · rcases List.mem_or_eq_of_mem_set member with member | rfl
    · exact (settled.engaged d' member).imp_right fun ⟨j, nd', found, works⟩ =>
        listed d' j nd' found works
    · exact admits'.symm.imp_right fun works => listed _ i nd launch works
  · by_cases same : j = i
    · -- Of the launch that was run, the device has now what is on its units.
      subst same
      cases here.symm.trans found
      have whole := admits'.share_eq (holding_of_rests shares.owned)
      have others : f.elsewhere k after.launch = f.elsewhere k nd :=
        List.flatMap_congr fun d _ => Device.share_congr shape.launch shape.id d
      refine shares.spread.perm ((holding_set_perm device _).trans ?_).symm
      rw [Device.share_congr shape.launch shape.id, whole, others]
    · -- Of any other launch it has nothing, as before.
      rw [List.getElem?_set_ne (Ne.symm same)] at found
      have differs : nd.launch ≠ nd'.launch := fun number =>
        same (NdRange.position_eq settled.distinct found launch number.symm)
      refine (settled.spread j nd' found).perm ?_
      refine (holding_perm device).trans ((holding_set_perm device _).trans ?_).symm
      rw [admits.share_of_ne differs, admits'.share_of_ne differs]

theorem run_eq (device : f.devices[k]? = some d) (launch : f.launches[i]? = some nd)
    (budget : Option Nat) :
    f.run k i budget = {
      devices := f.devices.set k ((Job.runWithin budget).outcome ⟨d, nd⟩).2.device
      launches := f.launches.set i ((Job.runWithin budget).outcome ⟨d, nd⟩).2.launch } := by
  rw [run, device, launch]

theorem Settled.run (settled : f.Settled) (k i : Nat) (budget : Option Nat) :
    (f.run k i budget).Settled := by
  rcases device : f.devices[k]? with _ | d
  · rwa [Fleet.run, device]
  rcases launch : f.launches[i]? with _ | nd
  · rwa [Fleet.run, device, launch]
  rw [run_eq device launch]
  rcases settled.refused_or_shares device launch with ⟨e, refused⟩ | ⟨shares, admits⟩
  · obtain ⟨insideDevices, rfl⟩ := List.getElem?_eq_some_iff.mp device
    obtain ⟨insideLaunches, rfl⟩ := List.getElem?_eq_some_iff.mp launch
    rw [refused]
    dsimp only
    rwa [List.set_getElem_self, List.set_getElem_self]
  · obtain ⟨answer, after, done, own, shares'⟩ := shares.runWithin budget
    obtain ⟨shape, admits', size⟩ := admits_of_runWithin shares admits own
    rw [done]
    exact settled.set device launch admits shares' shape admits' size

theorem Settled.afterRuns (settled : f.Settled) (runs : List (Nat × Nat × Option Nat)) :
    (f.afterRuns runs).Settled := by
  induction runs generalizing f with
  | nil => exact settled
  | cons call rest ih => exact ih (settled.run call.1 call.2.1 call.2.2)

/-! ## When a run is over -/

/-- A run that completes leaves no group waiting, and none on the units of its device. -/
theorem Settled.rests_of_completed (settled : f.Settled) (device : f.devices[k]? = some d)
    (launch : f.launches[i]? = some nd) {budget : Option Nat} {answer : Outcome}
    {after : Job ι μ π} (done : (Job.runWithin budget).outcome ⟨d, nd⟩ = (.ok answer, after))
    (ended : budget = none ∨ answer.isCompleted = true) :
    after.launch.Spread (f.elsewhere k nd) ∧ after.launch.pending = [] := by
  rcases settled.refused_or_shares device launch with ⟨e, refused⟩ | ⟨shares, admits⟩
  · cases (refused budget).symm.trans done
  · obtain ⟨_, _, done', own, shares'⟩ := shares.runWithin budget
    cases done.symm.trans done'
    have owned := shares'.owned
    have quiet := shares.owned.quiet_of_runWithin own ended
    obtain ⟨-, -, size⟩ := admits_of_runWithin shares admits own
    have staffed : 0 < after.device.cluster.units.size :=
      size ▸ settled.staffed d (List.mem_of_getElem? device)
    have pending := quiet.pending_eq_nil owned (Array.getElem?_eq_getElem staffed)
    have spread := shares'.spread
    rw [show after.device.holding = [] from holding_of_rests owned quiet.idle] at spread
    exact ⟨spread, (NdRange.pending_closeAll ..).symm.trans pending⟩

end Fleet

/-! ## Every history -/

/-- A device that was built from a valid configuration and has not worked yet. -/
inductive Device.IsNew {ι μ π : Type} [Placement π] : Device ι μ π → Prop
  | intro {id : Nat} {config : DeviceConfig} {isa : ι} {memory : μ} {placement : π}
      {device : Device ι μ π} (built : Device.build id config isa memory placement = .ok device)
      (small : config.wavefrontSize < countBound) (reliable : Placement.Reliable placement)
      (order : StageOrder) (sink : Sink) : IsNew ((device.withOrder order).withSink sink)

/-- Nothing runs of a new launch. -/
theorem NdRange.spread_of_create {launch number : Nat} {kernelName : String}
    {globalSize localSize : Dim3} {wavefrontSize : Nat} {nd : NdRange}
    (made : create launch number kernelName globalSize localSize wavefrontSize = .ok nd) :
    nd.Spread [] := by
  obtain ⟨-, -, itemCount, groupSize, -, -, rfl⟩ := create_eq_ok made
  refine ⟨consistent_cut, List.nodup_nil, fun unit group => ⟨nofun, fun runs => ?_⟩, ?_⟩
  · obtain ⟨g, found, running⟩ := runs
    obtain ⟨-, rfl⟩ := getElem?_groups_cut found
    cases running
  · simp [cut, groupCount]

namespace Fleet

variable {ι μ π : Type} [Placement π] {devices : List (Device ι μ π)} {launches : List NdRange}

theorem settled_of_new (built : ∀ d ∈ devices, d.IsNew)
    (made : ∀ nd ∈ launches, ∃ launch number kernelName globalSize localSize wavefrontSize,
      NdRange.create launch number kernelName globalSize localSize wavefrontSize = .ok nd)
    (distinct : (launches.map (·.launch)).Nodup) :
    ({ devices, launches } : Fleet ι μ π).Settled where
  owned d member := by
    have made : NdRange.create 0 0 "" ⟨1, 1, 1⟩ ⟨1, 1, 1⟩ 1 = .ok _ := rfl
    cases built d member with
    | intro built small reliable order sink =>
        exact ⟨_, Job.Owned.fresh built small reliable made order sink⟩
  staffed d member := by
    cases built d member with
    | intro built _ _ order sink =>
        obtain ⟨valid, rfl⟩ := Device.build_eq_ok built
        obtain ⟨units, -⟩ := DeviceConfig.validate_eq_ok valid
        simpa [Device.withOrder, Device.withSink, Cluster.setOrder, Cluster.create] using units
  engaged d member := by
    cases built d member with
    | intro built _ _ order sink =>
        obtain ⟨-, rfl⟩ := Device.build_eq_ok built
        exact .inl ⟨rfl, rfl⟩
  spread i nd found := by
    obtain ⟨_, _, _, _, _, _, made⟩ := made nd (List.mem_of_getElem? found)
    have nothing : ({ devices, launches } : Fleet ι μ π).holding nd = [] := by
      refine List.flatMap_eq_nil_iff.mpr fun d member => ?_
      cases built d member with
      | intro built _ _ order sink =>
          obtain ⟨-, rfl⟩ := Device.build_eq_ok built
          exact if_neg (Device.not_worksOn_of_free rfl)
    exact nothing ▸ NdRange.spread_of_create made
  distinct := distinct

variable [InstructionModel ι] [MemoryService μ]

/-- New devices and new launches of different numbers, after runs of any of the launches on any of
the devices, with budgets or without. When another run completes, every group of its launch is done
or runs, and those that run are the ones that units of other devices hold, where a run of the same
launch was interrupted. So all groups are done exactly if no other device holds one. -/
theorem completed_unless_held_elsewhere (built : ∀ d ∈ devices, d.IsNew)
    (made : ∀ nd ∈ launches, ∃ launch number kernelName globalSize localSize wavefrontSize,
      NdRange.create launch number kernelName globalSize localSize wavefrontSize = .ok nd)
    (distinct : (launches.map (·.launch)).Nodup) (runs : List (Nat × Nat × Option Nat))
    {f : Fleet ι μ π} (reached : f = ({ devices, launches } : Fleet ι μ π).afterRuns runs)
    {k i : Nat} {d : Device ι μ π} {nd : NdRange} (device : f.devices[k]? = some d)
    (launch : f.launches[i]? = some nd) {stats : RunStats} {after : Job ι μ π}
    (completed : Job.run.outcome ⟨d, nd⟩ = (.ok stats, after) ∨
      ∃ cycles, (Job.runFor cycles).outcome ⟨d, nd⟩ = (.ok (.completed stats), after)) :
    (∀ (group : Nat) (g : WorkGroup), after.launch.groups[group]? = some g →
      ∃ unit, g.phase = .done unit ∨ g.phase = .running unit) ∧
    (∀ unit group, (∃ g, after.launch.groups[group]? = some g ∧ g.phase = .running unit) ↔
      f.HeldElsewhere k nd unit group) ∧
    (after.launch.allDone = true ↔ ∀ unit group, ¬ f.HeldElsewhere k nd unit group) := by
  have settled : f.Settled := reached ▸ (settled_of_new built made distinct).afterRuns runs
  obtain ⟨spread, pending⟩ :
      after.launch.Spread (f.elsewhere k nd) ∧ after.launch.pending = [] := by
    rcases completed with completed | ⟨cycles, completed⟩
    · obtain ⟨answer, within, -⟩ := Job.run_eq_ok.mp completed
      exact settled.rests_of_completed device launch within (.inl rfl)
    · exact settled.rests_of_completed device launch completed (.inr rfl)
  refine ⟨fun group g found => ?_, fun unit group => ?_, ?_⟩
  · rcases phase : g.phase with _ | unit | unit
    · have waits := (spread.consistent.waiting group).mpr ⟨g, found, phase⟩
      rw [pending] at waits
      cases waits
    · exact ⟨unit, .inr rfl⟩
    · exact ⟨unit, .inl rfl⟩
  · rw [← settled.mem_elsewhere]
    exact (spread.running unit group).symm
  · have counted := spread.counted
    simp only [← settled.mem_elsewhere]
    rw [pending, List.length_nil] at counted
    rw [NdRange.allDone, beq_iff_eq]
    constructor
    · intro all unit group held
      have positive := List.length_pos_of_mem held
      omega
    · intro none_held
      have nothing : f.elsewhere k nd = [] :=
        List.eq_nil_iff_forall_not_mem.mpr fun pair => none_held pair.1 pair.2
      rw [nothing, List.length_nil] at counted
      omega

/-- Two devices of one unit and a launch of two groups: the first device is interrupted at the first
group, and the second one runs the launch without a budget. -/
theorem completed_unless_held_elsewhere_on_two_devices :
    ∃ (device : Device SyntheticProgram FixedLatency Placer) (launch : NdRange),
      Device.build 0 { computeUnits := 1, streamCores := 2, wavefrontSize := 2 } (.ofKinds [])
        { latency := 3 } PlacementPolicy.firstIdle.build = .ok device ∧
      NdRange.create 1 0 "kernel" ⟨4, 1, 1⟩ ⟨2, 1, 1⟩ 2 = .ok launch ∧
      let d := (device.withOrder .forward).withSink .discard
      let f := ({ devices := [d, d], launches := [launch] } : Fleet _ _ _).afterRuns [(0, 0, some 1)]
      ∃ d nd stats after, f.devices[1]? = some d ∧ f.launches[0]? = some nd ∧
        Job.run.outcome ⟨d, nd⟩ = (.ok stats, after) ∧
        (∀ (group : Nat) (g : WorkGroup), after.launch.groups[group]? = some g →
          ∃ unit, g.phase = .done unit ∨ g.phase = .running unit) ∧
        ∀ unit group, (∃ g, after.launch.groups[group]? = some g ∧ g.phase = .running unit) ↔
          f.HeldElsewhere 1 nd unit group := by
  have built : Device.build 0 { computeUnits := 1, streamCores := 2, wavefrontSize := 2 }
      (SyntheticProgram.ofKinds []) ({ latency := 3 } : FixedLatency)
      PlacementPolicy.firstIdle.build = .ok _ := rfl
  let launch : NdRange := .cut 1 0 "kernel" ⟨4, 1, 1⟩ ⟨2, 1, 1⟩ 2 2 2
  have made : NdRange.create 1 0 "kernel" ⟨4, 1, 1⟩ ⟨2, 1, 1⟩ 2 = .ok launch := rfl
  refine ⟨_, _, built, made, ?_⟩
  intro d f
  have new : ∀ other ∈ [d, d], other.IsNew := by
    intro other member
    rw [List.mem_pair, or_self] at member
    exact member ▸ .intro built (by decide) (PlacementPolicy.reliable_build _) .forward .discard
  have single : ∀ nd ∈ [launch], ∃ launch number kernelName globalSize localSize wavefrontSize,
      NdRange.create launch number kernelName globalSize localSize wavefrontSize = .ok nd := by
    intro nd member
    cases List.mem_singleton.mp member
    exact ⟨_, _, _, _, _, _, made⟩
  have second : f.devices[1]? = some ((f.devices[1]?).get (by decide +kernel)) :=
    (Option.some_get _).symm
  have found : f.launches[0]? = some ((f.launches[0]?).get (by decide +kernel)) :=
    (Option.some_get _).symm
  have ok : (Job.run.outcome ⟨(f.devices[1]?).get (by decide +kernel),
      (f.launches[0]?).get (by decide +kernel)⟩).1.isOk = true := by
    decide +kernel
  obtain ⟨stats, after, done, whole⟩ := Attempt.exists_of_isOk ok fun stats after done =>
    completed_unless_held_elsewhere new single (by decide) [(0, 0, some 1)] rfl second found
      (.inl done)
  exact ⟨_, _, stats, after, second, found, done, whole.1, whole.2.1⟩

/-- Two devices of two units and a launch of one group: the first device is interrupted at the
group, and then the second one completes the launch within no cycle, while the group runs. -/
theorem completed_while_a_group_runs :
    ∃ (device : Device SyntheticProgram FixedLatency Placer) (launch : NdRange),
      Device.build 0 { computeUnits := 2, streamCores := 2, wavefrontSize := 2 } (.ofKinds [])
        { latency := 3 } PlacementPolicy.firstIdle.build = .ok device ∧
      NdRange.create 1 0 "a" ⟨2, 1, 1⟩ ⟨2, 1, 1⟩ 2 = .ok launch ∧
      let first := (Job.runFor 1).outcome ({ device, launch } : Job _ _ _)
      let second := (Job.runFor 0).outcome ({ device, launch := first.2.launch } : Job _ _ _)
      first.1.toOption.map (·.isCompleted) = some false ∧
        second.1.toOption.map (·.isCompleted) = some true ∧
        second.2.launch.groups[0]?.map (·.phase) = some (.running 0) ∧
        second.2.launch.allDone = false := by
  have built : Device.build 0 { computeUnits := 2, streamCores := 2, wavefrontSize := 2 }
      (SyntheticProgram.ofKinds []) ({ latency := 3 } : FixedLatency)
      PlacementPolicy.firstIdle.build = .ok _ := rfl
  have made : NdRange.create 1 0 "a" ⟨2, 1, 1⟩ ⟨2, 1, 1⟩ 2 = .ok _ := rfl
  exact ⟨_, _, built, made, by decide +kernel⟩

end Fleet

end Accelerator
