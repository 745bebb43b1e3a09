import Accelerator.Proofs.Device.Equipment
import Accelerator.Proofs.Device.Steps

/-!
# The order of single steps

A driver can have every busy unit of a suspended run work once, in an order of its own, and then
dispatch. Up to the dispatch the order cannot be seen, except that units which finish become idle in
the order in which they were stepped. So the dispatch comes to the same under a placement that goes by
numbers. Under one that takes the unit that has been idle longest it does exactly if the same units
finish first, as many as are taken of those that were busy (`Owned.stepAll_cases`).

Two units that finish in the same cycle, and two groups that wait for them, are enough to see the
order.
-/

namespace Accelerator

namespace Job

variable {ι μ : Type}

/-! ## Dispatch in lockstep -/

/-- The jobs differ in the order in which units became idle or busy, and in the order of the events
since their sinks were `base`. -/
structure Paired (policy : PlacementPolicy) (base : Sink) (idle idle' : List Nat)
    (job other : Job ι μ Placer) : Prop where
  owned : job.Owned
  owned' : other.Owned
  cluster : job.device.cluster = other.device.cluster
  launch : job.launch = other.launch
  cycle : job.device.cycle = other.device.cycle
  placement : job.device.placement = other.device.placement
  follows : job.device.placement.policy? = some policy
  sinks : Sink.Shuffled base job.device.sink other.device.sink
  listed : job.device.idle.Lists idle
  listed' : other.device.idle.Lists idle'
  perm : idle.Perm idle'

variable {policy : PlacementPolicy} {base : Sink} {idle idle' : List Nat} {job other : Job ι μ Placer}

theorem Paired.size_idle (paired : Paired policy base idle idle' job other) :
    job.device.idle.size = other.device.idle.size := by
  rw [paired.listed.size, paired.listed'.size, paired.perm.length_eq]

theorem Paired.canDispatch_eq (paired : Paired policy base idle idle' job other) :
    job.canDispatch = other.canDispatch := by
  rw [canDispatch, canDispatch, UnitSet.isEmpty, UnitSet.isEmpty, paired.size_idle, paired.launch]

/-- The same units are next, where it matters: as many as groups wait. -/
def SameNext (policy : PlacementPolicy) (idle idle' : List Nat) (job : Job ι μ Placer) : Prop :=
  policy = .firstIdle → idle.take job.launch.pending.length = idle'.take job.launch.pending.length

/-- The same group goes to the same unit. -/
theorem Paired.dispatchOne (paired : Paired policy base idle idle' job other)
    (same : SameNext policy idle idle' job) (possible : job.canDispatch = true) :
    ∃ next next' rest rest', job.Hands next ∧ Job.dispatchOne.outcome job = (.ok true, next) ∧
      Job.dispatchOne.outcome other = (.ok true, next') ∧
      Paired policy base rest rest' next next' ∧ SameNext policy rest rest' next := by
  have listed := paired.listed
  have listed' := paired.listed'
  obtain ⟨placement, unit, u, g, rest, wavefronts, deal⟩ := paired.owned.deal possible
  unfold SameNext at same
  rw [deal.pending, List.length_cons] at same
  have first : policy = .firstIdle → idle.head? = idle'.head? := fun byAge => by
    simpa [List.head?_take] using congrArg List.head? (same byAge)
  have member : unit ∈ idle := (listed.member unit).mp deal.isIdle
  have member' : unit ∈ idle' := paired.perm.mem_iff.mp member
  have deal' : other.Deal placement unit u g rest wavefronts := {
    picked := by
      rw [← paired.placement, ← Placer.pick_congr paired.follows listed listed' paired.perm first,
        deal.picked]
    reliable := deal.reliable
    isIdle := (listed'.member unit).mpr member'
    pending := paired.launch ▸ deal.pending
    found := paired.launch ▸ deal.found
    waits := deal.waits
    listed := paired.launch ▸ deal.listed
    resident := paired.cluster ▸ deal.resident
    free := deal.free }
  refine ⟨_, _, idle.erase unit, idle'.erase unit, deal.hands, deal.outcome, deal'.outcome, ?_,
    fun byAge => ?_⟩
  · refine {
      owned := deal.hands.owned paired.owned
      owned' := deal'.hands.owned paired.owned'
      cluster := congrArg (Cluster.setUnit · unit (u.loaded g.id wavefronts)) paired.cluster
      launch := congrArg (fun nd : NdRange => ({ nd with pending := rest } : NdRange).start g unit)
        paired.launch
      cycle := paired.cycle
      placement := rfl
      follows := ?_
      sinks := ?_
      listed := listed.unlink_erase member
      listed' := listed'.unlink_erase member'
      perm := paired.perm.erase unit }
    · have kept := Placer.policy?_pick job.device.placement job.device.idle
      rw [deal.picked] at kept
      exact kept.trans paired.follows
    · show Sink.Shuffled base (job.device.sink.record _) (other.device.sink.record _)
      rw [← paired.cycle]
      exact paired.sinks.replay (.refl [some _])
  · -- The unit is the first in both orders, and leaves both.
    have head := Placer.pick_firstIdle (byAge ▸ paired.follows) listed
    rw [deal.picked] at head
    obtain ⟨after, rfl⟩ := List.head?_eq_some_iff.mp head.symm
    obtain ⟨after', rfl⟩ := List.head?_eq_some_iff.mp (head.trans (first byAge)).symm
    rw [List.erase_cons_head, List.erase_cons_head]
    exact (List.cons.inj (same byAge)).2

theorem Paired.dispatchUpTo (paired : Paired policy base idle idle' job other)
    (same : SameNext policy idle idle' job) {limit : Nat}
    (enough : job.device.idle.size ≤ limit) :
    ∃ count after after' rest rest', (Job.dispatchUpTo limit).outcome job = (.ok count, after) ∧
      (Job.dispatchUpTo limit).outcome other = (.ok count, after') ∧
      Paired policy base rest rest' after after' := by
  induction limit generalizing job other idle idle' with
  | zero => exact ⟨0, job, other, idle, idle', rfl, rfl, paired⟩
  | succ limit ih =>
      have both := paired.canDispatch_eq
      cases possible : job.canDispatch with
      | false =>
          exact ⟨0, job, other, idle, idle', dispatchUpTo_of_full possible _,
            dispatchUpTo_of_full (both.symm.trans possible) _, paired⟩
      | true =>
          obtain ⟨next, next', _, _, hands, first, first', paired', same'⟩ :=
            paired.dispatchOne same possible
          have size := hands.size_idle paired.owned
          obtain ⟨count, after, after', _, _, others, others', paired''⟩ :=
            ih paired' same' (by omega)
          exact ⟨count + 1, after, after', _, _, dispatchUpTo_succ possible first others,
            dispatchUpTo_succ (both.symm.trans possible) first' others', paired''⟩

/-- A dispatch does the same for both. -/
theorem Paired.dispatch (paired : Paired policy base idle idle' job other)
    (same : SameNext policy idle idle' job) :
    ∃ count after after' rest rest', Job.dispatch.outcome job = (.ok count, after) ∧
      Job.dispatch.outcome other = (.ok count, after') ∧
      Paired policy base rest rest' after after' := by
  have done := paired.dispatchUpTo same (Nat.le_refl _)
  rw [Job.dispatch, Attempt.outcome_get_bind, Attempt.outcome_get_bind, ← paired.size_idle]
  exact done

/-! ## Dispatch by age -/

/-- A group that runs goes on running while others are handed out. -/
theorem Hands.runs {after : Job ι μ Placer} (hands : job.Hands after) {unit group : Nat}
    (runs : job.Runs unit group) : after.Runs unit group := by
  cases hands with
  | intro _ _ found waits _ _ _ =>
      rw [runs_handed found]
      split
      next same =>
        obtain ⟨g, found', isRunning⟩ := runs
        rw [same] at found'
        cases found.symm.trans found'
        cases waits.symm.trans isRunning
      next => exact runs

theorem Runs.of_hands {after : Job ι μ Placer} {unit group : Nat} (runs : job.Runs unit group)
    (path : Relation.ReflTransGen Hands job after) : after.Runs unit group := by
  induction path with
  | refl => exact runs
  | tail _ hands runs => exact hands.runs runs

/-- The unit that has been idle longest is given the group that has waited longest. -/
theorem Owned.dispatchOne_firstIdle (owned : job.Owned)
    (follows : job.device.placement.policy? = some .firstIdle) {unit group : Nat}
    {idle rest : List Nat} (listed : job.device.idle.Lists (unit :: idle))
    (pending : job.launch.pending = group :: rest) :
    ∃ next, job.Hands next ∧ Job.dispatchOne.outcome job = (.ok true, next) ∧
      next.launch.pending = rest ∧ next.device.idle.Lists idle ∧ next.Runs unit group ∧
      next.device.placement.policy? = some .firstIdle := by
  have possible : job.canDispatch = true := by
    simp [canDispatch, NdRange.hasPending, pending, listed.isEmpty_eq]
  obtain ⟨placement, chosen, u, g, rest', wavefronts, deal⟩ := owned.deal possible
  cases pending.symm.trans deal.pending
  have kept := Placer.policy?_pick job.device.placement job.device.idle
  have eldest := Placer.pick_firstIdle follows listed
  rw [deal.picked] at kept eldest
  cases eldest
  refine ⟨_, deal.hands, deal.outcome, rfl, ?_,
    (runs_handed deal.found unit g.id).mpr (by rw [if_pos rfl]), kept.trans follows⟩
  have left := listed.unlink_erase (List.mem_cons_self ..)
  rwa [List.erase_cons_head] at left

/-- The groups that wait go, one by one, to the units by their age. -/
theorem Owned.runs_of_dispatchUpTo (owned : job.Owned)
    (follows : job.device.placement.policy? = some .firstIdle) {idle : List Nat}
    (listed : job.device.idle.Lists idle) {limit : Nat} (enough : idle.length ≤ limit)
    {count : Nat} {after : Job ι μ Placer}
    (done : (Job.dispatchUpTo limit).outcome job = (.ok count, after)) {j group unit : Nat}
    (waiting : job.launch.pending[j]? = some group) (resting : idle[j]? = some unit) :
    after.Runs unit group := by
  induction limit generalizing job idle j count with
  | zero =>
      rw [List.length_eq_zero_iff.mp (Nat.le_zero.mp enough)] at resting
      cases resting
  | succ limit ih =>
      rcases idle with _ | ⟨eldest, idle⟩
      · cases resting
      rcases pending : job.launch.pending with _ | ⟨oldest, rest⟩
      · rw [pending] at waiting
        cases waiting
      have possible : job.canDispatch = true := by
        simp [canDispatch, NdRange.hasPending, pending, listed.isEmpty_eq]
      obtain ⟨next, hands, first, pending', listed', begun, follows'⟩ :=
        owned.dispatchOne_firstIdle follows listed pending
      have below : next.device.idle.size ≤ limit := by
        rw [listed'.size]
        exact Nat.le_of_succ_le_succ enough
      obtain ⟨count', after', others, path, -⟩ := (hands.owned owned).dispatchUpTo below
      cases (dispatchUpTo_succ possible first others).symm.trans done
      cases j with
      | zero =>
          rw [pending] at waiting
          cases waiting
          cases resting
          exact begun.of_hands path
      | succ j =>
          rw [pending] at waiting
          exact ih (hands.owned owned) follows' listed' (Nat.le_of_succ_le_succ enough) others
            (pending' ▸ waiting) resting

/-- Where units are taken by age, the launch tells afterwards which of them were next. -/
theorem Paired.sameNext_of_launch_eq (paired : Paired policy base idle idle' job other)
    {count count' : Nat} {after after' : Job ι μ Placer}
    (done : Job.dispatch.outcome job = (.ok count, after))
    (done' : Job.dispatch.outcome other = (.ok count', after'))
    (same : after.launch = after'.launch) : SameNext policy idle idle' job := by
  rintro rfl
  rw [Job.dispatch, Attempt.outcome_get_bind] at done done'
  refine List.ext_getElem? fun j => ?_
  rw [List.getElem?_take, List.getElem?_take]
  split
  next inside =>
    have length := paired.perm.length_eq
    obtain ⟨group, waiting⟩ : ∃ group, job.launch.pending[j]? = some group :=
      ⟨_, List.getElem?_eq_getElem inside⟩
    rcases resting : idle[j]? with _ | unit
    · rw [List.getElem?_eq_none_iff, length] at resting
      rw [List.getElem?_eq_none resting]
    obtain ⟨unit', resting'⟩ : ∃ unit, idle'[j]? = some unit :=
      ⟨_, List.getElem?_eq_getElem (length ▸ (List.getElem?_eq_some_iff.mp resting).1)⟩
    have runs := paired.owned.runs_of_dispatchUpTo paired.follows paired.listed
      (Nat.le_of_eq paired.listed.size.symm) done waiting resting
    have runs' := paired.owned'.runs_of_dispatchUpTo (paired.placement ▸ paired.follows)
      paired.listed' (Nat.le_of_eq paired.listed'.size.symm) done' (paired.launch ▸ waiting) resting'
    have here : after.Runs unit' group := by
      rw [Runs, same]
      exact runs'
    rw [resting', runs.unit_eq here]
  next => rfl

/-! ## Steps in any order -/

section Steps

variable [InstructionModel ι] [MemoryService μ] {P : μ → Prop}

/-- Units are stepped in an order, and then groups are dispatched. -/
def stepAll (order : List Nat) : Attempt (Job ι μ Placer) Nat := do
  order.forM stepUnit
  dispatch

theorem take_append_eq_iff {units first second : List Nat} {n : Nat} :
    (units ++ first).take n = (units ++ second).take n ↔
      first.take (n - units.length) = second.take (n - units.length) := by
  rw [List.take_append, List.take_append, List.append_cancel_left_eq]

/-- Before the dispatch two orders leave the same job, except for the order of the idle units and of
the events. -/
theorem Owned.paired (stateless : InstructionModel.Stateless ι)
    (impartial : MemoryService.Impartial μ P) (owned : job.Owned)
    (memory : P job.device.cluster.memory) (follows : job.device.placement.policy? = some policy)
    {order order' : List Nat} (perm : order.Perm job.device.busy.toList)
    (perm' : order'.Perm job.device.busy.toList) {idle : List Nat}
    (listed : job.device.idle.Lists idle) :
    ∃ left right, (order.forM Job.stepUnit).outcome job = (.ok (), left) ∧
      (order'.forM Job.stepUnit).outcome job = (.ok (), right) ∧
      left.launch.pending = job.launch.pending ∧
      Paired policy job.device.sink (idle ++ order.filter job.device.finishes)
        (idle ++ order'.filter job.device.finishes) left right := by
  obtain ⟨left, done, swept, units⟩ := owned.swept_of_perm stateless impartial memory perm
  obtain ⟨right, done', swept', units'⟩ := owned.swept_of_perm stateless impartial memory perm'
  have same := Sweep.foldl_visited_perm impartial job.device.cycle (perm.trans perm'.symm)
    (s := { cluster := job.device.cluster }) ⟨owned.sound, memory⟩ (.refl _)
  refine ⟨left, right, done, done', ?_, {
    owned := swept.owned
    owned' := swept'.owned
    cluster := swept.cluster.trans (same.cluster.trans swept'.cluster.symm)
    launch := ?_
    cycle := swept.cycle.trans swept'.cycle.symm
    placement := swept.placement.trans swept'.placement.symm
    follows := swept.placement ▸ follows
    sinks := ?_
    listed := ?_
    listed' := ?_
    perm := ?_ }⟩
  · rw [swept.launch, NdRange.pending_closeAll]
  · rw [swept.launch, swept'.launch, NdRange.closeAll_perm (same.finished.map _)]
  · obtain ⟨entries, given, sink⟩ := swept.sink
    obtain ⟨entries', given', sink'⟩ := swept'.sink
    exact ⟨entries, entries', given.trans ((same.told _).trans given'.symm), sink, sink'⟩
  · exact units ▸ swept.listed_idle listed
  · exact units' ▸ swept'.listed_idle listed
  · exact ((perm.trans perm'.symm).filter _).append_left idle

/-- Every busy unit of a job is stepped once, in one order and in another, and then groups are
dispatched. -/
theorem Owned.stepAll_cases (stateless : InstructionModel.Stateless ι)
    (impartial : MemoryService.Impartial μ P) (owned : job.Owned)
    (memory : P job.device.cluster.memory) (follows : job.device.placement.policy? = some policy)
    {order order' : List Nat} (perm : order.Perm job.device.busy.toList)
    (perm' : order'.Perm job.device.busy.toList) :
    let taken := job.launch.pending.length - job.device.idle.size
    let SameFirst := policy = .firstIdle → (order.filter job.device.finishes).take taken =
      (order'.filter job.device.finishes).take taken
    ∃ count count' left right, (stepAll order).outcome job = (.ok count, left) ∧
      (stepAll order').outcome job = (.ok count', right) ∧
      (SameFirst → count = count' ∧ left.device.cluster = right.device.cluster ∧
        left.launch = right.launch ∧
        Sink.Shuffled job.device.sink left.device.sink right.device.sink) ∧
      (left.launch = right.launch → SameFirst) := by
  intro taken SameFirst
  obtain ⟨idle, listed⟩ := owned.idleListed
  obtain ⟨left, right, stepped, stepped', pending, paired⟩ :=
    owned.paired stateless impartial memory follows perm perm' listed
  obtain ⟨count, after, dispatched, -⟩ := paired.owned.dispatch
  obtain ⟨count', after', dispatched', -⟩ := paired.owned'.dispatch
  have takes : SameNext policy (idle ++ order.filter job.device.finishes)
      (idle ++ order'.filter job.device.finishes) left ↔ SameFirst := by
    rw [SameNext, pending, take_append_eq_iff, ← listed.size]
  refine ⟨count, count', after, after', (Attempt.outcome_bind_of_ok stepped).trans dispatched,
    (Attempt.outcome_bind_of_ok stepped').trans dispatched', fun same => ?_, fun same =>
      takes.mp (paired.sameNext_of_launch_eq dispatched dispatched' same)⟩
  obtain ⟨_, _, _, _, _, done, done', paired'⟩ := paired.dispatch (takes.mpr same)
  cases dispatched.symm.trans done
  cases dispatched'.symm.trans done'
  exact ⟨rfl, paired'.cluster, paired'.launch, paired'.sinks⟩

end Steps

end Job

namespace Host

/-! ## Every history -/

/-- A device with two tiers of memory that runs one program, after runs of whatever launches. Every
busy unit is stepped once with the launch that is under way, in one order and in another, and then
groups are dispatched. No step is refused. Under a placement that goes by numbers both orders dispatch
as much, and leave the same units, each with the same group, the same launch, and a sink that was told
of the same events. Under a placement that goes by age they do so exactly if the same units finish
first, as many as there are groups that no idle unit was there for. -/
theorem step_order_matters_by_age_only {id : Nat} {config : DeviceConfig}
    {program : SyntheticProgram} {memory : MemoryConfig} {policy : PlacementPolicy}
    {device : Device SyntheticProgram Hierarchy Placer}
    (built : Device.build id config program (Hierarchy.create memory) policy.build = .ok device)
    (small : config.wavefrontSize < countBound) (stages : StageOrder) (sink : Sink)
    {launches : List NdRange}
    (made : ∀ nd ∈ launches, ∃ launch number kernelName globalSize localSize wavefrontSize,
      NdRange.create launch number kernelName globalSize localSize wavefrontSize = .ok nd)
    (distinct : (launches.map (·.launch)).Nodup) (runs : List (Nat × Nat))
    {h : Host SyntheticProgram Hierarchy Placer}
    (reached : h = ({ device := (device.withOrder stages).withSink sink, launches } : Host _ _ _).afterRuns
      runs)
    {i : Nat} {nd : NdRange} (found : h.launches[i]? = some nd)
    (at_work : h.device.active = none ∨ h.WorksOn i) {order order' : List Nat}
    (perm : order.Perm h.device.busy.toList) (perm' : order'.Perm h.device.busy.toList) :
    let taken := nd.pending.length - h.device.idle.size
    let SameFirst := policy = .firstIdle → (order.filter h.device.finishes).take taken =
      (order'.filter h.device.finishes).take taken
    ∃ count count' left right, (Job.stepAll order).outcome (h.job nd) = (.ok count, left) ∧
      (Job.stepAll order').outcome (h.job nd) = (.ok count', right) ∧
      (SameFirst → count = count' ∧ left.device.cluster = right.device.cluster ∧
        left.launch = right.launch ∧
        Sink.Shuffled h.device.sink left.device.sink right.device.sink) ∧
      (left.launch = right.launch → SameFirst) := by
  have new := apart_of_new built small policy.reliable_build stages sink made
  have path := calls_afterRuns
    ({ device := (device.withOrder stages).withSink sink, launches } : Host _ _ _) runs
  obtain ⟨apart, distinct'⟩ := apart_of_calls path distinct new
  have equipped := equipped_afterRuns SyntheticProgram.stateless Hierarchy.impartial
    (fun (p : Placer) idle follows => (p.policy?_pick idle).trans follows) new distinct
    (show (device.withOrder stages).placement.policy? = some policy by
      obtain ⟨-, rfl⟩ := Device.build_eq_ok built
      exact policy.policy?_build)
    (show (device.withOrder stages).cluster.memory.Ordered by
      obtain ⟨-, rfl⟩ := Device.build_eq_ok built
      exact Hierarchy.ordered_create memory) runs
  rw [← reached] at apart distinct' equipped
  exact (apart.owned distinct' found at_work).stepAll_cases SyntheticProgram.stateless
    Hierarchy.impartial equipped.2 equipped.1 perm perm'

/-- Two of four groups finish in the same cycle, on a device that goes by numbers. -/
theorem step_order_matters_by_age_only_on_two_units :
    ∃ (device : Device SyntheticProgram Hierarchy Placer) (launch : NdRange),
      Device.build 0 { computeUnits := 2, streamCores := 2, wavefrontSize := 2 } (.ofKinds [])
        (Hierarchy.create {}) PlacementPolicy.roundRobin.build = .ok device ∧
      NdRange.create 1 0 "kernel" ⟨8, 1, 1⟩ ⟨2, 1, 1⟩ 2 = .ok launch ∧
      let h := ({ device := (device.withOrder .forward).withSink .keepAll, launches := [launch] } :
        Host SyntheticProgram Hierarchy Placer).afterRuns [(0, 5)]
      h.device.busy.toList = [0, 1] ∧ ∃ nd, h.launches[0]? = some nd ∧
        ∃ count left right, (Job.stepAll [0, 1]).outcome (h.job nd) = (.ok count, left) ∧
          (Job.stepAll [1, 0]).outcome (h.job nd) = (.ok count, right) ∧
          left.device.cluster = right.device.cluster ∧ left.launch = right.launch ∧
          left.device.sink.events.toList.Perm right.device.sink.events.toList := by
  have built : Device.build 0 { computeUnits := 2, streamCores := 2, wavefrontSize := 2 }
      (SyntheticProgram.ofKinds []) (Hierarchy.create {}) PlacementPolicy.roundRobin.build = .ok _ := rfl
  let launch : NdRange := .cut 1 0 "kernel" ⟨8, 1, 1⟩ ⟨2, 1, 1⟩ 2 4 2
  have made : NdRange.create 1 0 "kernel" ⟨8, 1, 1⟩ ⟨2, 1, 1⟩ 2 = .ok launch := rfl
  refine ⟨_, _, built, made, ?_⟩
  intro h
  have busy : h.device.busy.toList = [0, 1] := by decide +kernel
  have found : h.launches[0]? = some ((h.launches[0]?).get (by decide +kernel)) :=
    (Option.some_get _).symm
  have at_work : h.WorksOn 0 := ⟨_, found, by decide +kernel⟩
  have forth : [0, 1].Perm h.device.busy.toList := busy ▸ .refl _
  have back : [1, 0].Perm h.device.busy.toList := busy ▸ .swap ..
  have single : ∀ nd ∈ [launch], ∃ launch number kernelName globalSize localSize wavefrontSize,
      NdRange.create launch number kernelName globalSize localSize wavefrontSize = .ok nd := by
    intro nd member
    cases List.mem_singleton.mp member
    exact ⟨_, _, _, _, _, _, made⟩
  refine ⟨busy, _, found, ?_⟩
  obtain ⟨count, count', left, right, done, done', same, -⟩ := step_order_matters_by_age_only built
    (by decide) .forward .keepAll single (by decide) [(0, 5)] rfl found (.inr at_work) forth back
  obtain ⟨rfl, cluster, launch, sinks⟩ := same nofun
  exact ⟨count, left, right, done, done', cluster, launch, sinks.events_perm⟩

/-- Two of four groups finish in the same cycle, on a device that goes by age. Whichever unit is
stepped first is given the third group. -/
theorem step_order_matters :
    ∃ (device : Device SyntheticProgram Hierarchy Placer) (launch : NdRange),
      Device.build 0 { computeUnits := 2, streamCores := 2, wavefrontSize := 2 } (.ofKinds [])
        (Hierarchy.create {}) PlacementPolicy.firstIdle.build = .ok device ∧
      NdRange.create 1 0 "kernel" ⟨8, 1, 1⟩ ⟨2, 1, 1⟩ 2 = .ok launch ∧
      let h := ({ device := (device.withOrder .forward).withSink .keepAll, launches := [launch] } :
        Host SyntheticProgram Hierarchy Placer).afterRuns [(0, 5)]
      h.device.busy.toList = [0, 1] ∧ ∃ nd, h.launches[0]? = some nd ∧ h.WorksOn 0 ∧
        let left := (Job.stepAll [0, 1]).outcome (h.job nd)
        let right := (Job.stepAll [1, 0]).outcome (h.job nd)
        left.1 = .ok 2 ∧ right.1 = .ok 2 ∧
          left.2.device.cluster.units.toList.map (·.group) = [some 2, some 3] ∧
          right.2.device.cluster.units.toList.map (·.group) = [some 3, some 2] ∧
          left.2.launch.groups[2]?.map (·.phase) = some (.running 0) ∧
          right.2.launch.groups[2]?.map (·.phase) = some (.running 1) := by
  have built : Device.build 0 { computeUnits := 2, streamCores := 2, wavefrontSize := 2 }
      (SyntheticProgram.ofKinds []) (Hierarchy.create {}) PlacementPolicy.firstIdle.build = .ok _ := rfl
  have made : NdRange.create 1 0 "kernel" ⟨8, 1, 1⟩ ⟨2, 1, 1⟩ 2 = .ok _ := rfl
  refine ⟨_, _, built, made, ?_⟩
  intro h
  have found : h.launches[0]? = some ((h.launches[0]?).get (by decide +kernel)) :=
    (Option.some_get _).symm
  exact ⟨by decide +kernel, _, found, ⟨_, found, by decide +kernel⟩, by decide +kernel⟩

end Host

end Accelerator
