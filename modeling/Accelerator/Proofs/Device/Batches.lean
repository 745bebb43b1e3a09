import Accelerator.Proofs.Device.Stays
import Accelerator.Proofs.Device.Timetable
import Accelerator.Proofs.Pipeline.Pace

/-!
# Batches

When every group takes the same number of cycles, a device works in batches. All units are given a
group in the same cycle, in the order of their numbers, and all of them finish in the same cycle, in
the same order; so the next batch finds the units as the first one did. A `Rhythm` is what is known
of such a run in advance, and `Rhythm.InHand` says how far a batch has come.
-/

namespace Accelerator

/-- A run in which every group takes the same number of cycles, whenever it begins and on whatever
unit. -/
structure Rhythm where
  program : SyntheticProgram
  kept : .end ∉ program.kinds
  latency : Nat
  /-- Lanes per unit. -/
  lanes : Nat
  units : Nat
  some_units : 0 < units
  groups : Nat
  /-- How many cycles a unit works on a group, less the last one. -/
  rest : Nat

namespace Rhythm

open Job TraceEvent

variable (r : Rhythm)

/-- How many cycles a unit works on a group. -/
def steps : Nat := r.rest + 1

/-- How many groups there are in a batch. Only the last batch may be smaller than the others. -/
def batchSize (b : Nat) : Nat := min r.units (r.groups - b * r.units)

/-- How a group is reported to be dispatched. -/
def dispatchOf (group : Nat) : TraceEvent :=
  dispatch (group / r.units * r.steps + 1) (group % r.units) group

/-- How a group is reported to be done. -/
def completionOf (group : Nat) : TraceEvent :=
  completion ((group / r.units + 1) * r.steps) (group % r.units) group

variable {r} {b k unit left now : Nat}

/-- The groups of a batch go to the units in order. -/
theorem place_eq (inside : k < r.units) :
    (b * r.units + k) / r.units = b ∧ (b * r.units + k) % r.units = k := by
  rw [Nat.mul_comm b, Nat.mul_add_div r.some_units, Nat.mul_add_mod, Nat.div_eq_of_lt inside,
    Nat.mod_eq_of_lt inside]
  exact ⟨Nat.add_zero b, rfl⟩

theorem dispatchOf_eq (inside : k < r.units) :
    r.dispatchOf (b * r.units + k) = dispatch (b * r.steps + 1) k (b * r.units + k) := by
  rw [dispatchOf, (place_eq inside).1, (place_eq inside).2]

theorem completionOf_eq (inside : k < r.units) :
    r.completionOf (b * r.units + k) = completion ((b + 1) * r.steps) k (b * r.units + k) := by
  rw [completionOf, (place_eq inside).1, (place_eq inside).2]

/-! ## Jobs that keep a rhythm -/

/-- Whatever happens next, the run will keep its rhythm. -/
structure Governs (r : Rhythm) (job : Job SyntheticProgram FixedLatency Placer) : Prop where
  follows : job.Follows r.program r.lanes
  latency : job.device.cluster.memory.latency = r.latency
  keepsAll : job.device.sink.KeepsAll
  duration : ∀ (group : Nat) (wavefronts : List Wavefront),
    job.launch.wavefrontsOf group = .ok wavefronts →
      (ComputeUnit.opening r.lanes wavefronts).DrainsIn r.program r.latency r.steps

variable {job next after : Job SyntheticProgram FixedLatency Placer} {u : ComputeUnit}

theorem Governs.hands (governs : r.Governs job) (hands : job.Hands after) : r.Governs after := by
  have follows := hands.follows governs.follows
  have shape := hands.sameRun.shape
  cases hands with
  | intro _ _ _ _ _ _ _ =>
      exact ⟨follows, governs.latency, governs.keepsAll.record _,
        shape.wavefrontsOf ▸ governs.duration⟩

theorem Governs.ticked (governs : r.Governs job) : r.Governs job.ticked :=
  ⟨⟨governs.follows.owned.ticked, governs.follows.isa, governs.follows.units,
    governs.follows.items⟩, governs.latency, governs.keepsAll, governs.duration⟩

theorem Governs.works (governs : r.Governs job) (works : job.Works unit after) :
    r.Governs after := by
  have follows := works.follows governs.follows r.kept
  have shape := works.sameRun.shape
  cases works with
  | @intro u g resident held found runs =>
      have latency := Bench.latency_cycled (job.bench u) u.order job.device.cycle g.id
      refine ⟨follows, ?_, (trace_stepped governs.keepsAll unit u g).1,
        shape.wavefrontsOf ▸ governs.duration⟩
      rw [← governs.latency]
      rcases job.stepped_cases unit u g with ⟨-, stepped⟩ | ⟨-, stepped⟩ <;> rw [stepped] <;>
        exact latency

theorem Governs.sweeps {units : List Nat} (governs : r.Governs job)
    (sweeps : Sweeps units job after) : r.Governs after := by
  induction sweeps with
  | nil => exact governs
  | cons works _ ih => exact ih (governs.works works)

/-! ## A cycle of a unit -/

/-- The dispatches that a trace tells of, or the completions. -/
def ofAction (action : Action) (events : List TraceEvent) : List TraceEvent :=
  events.filter (·.action == action)

/-- Stages report neither dispatches nor completions. -/
theorem ofAction_cycled {ι μ : Type} [InstructionModel ι] [MemoryService μ] {bench : Bench ι μ}
    (clear : bench.events = []) {order : StageOrder} {cycle group : Nat} {action : Action}
    (milestone : action = .run ∨ action = .complete) :
    ofAction action (bench.cycled order cycle group).events = [] := by
  refine List.filter_eq_nil_iff.mpr fun e member same => ?_
  obtain ⟨⟨-, -, run, complete⟩, -⟩ := Bench.isOfStage_of_mem_cycled clear member
  rcases milestone with rfl | rfl
  · exact run (beq_iff_eq.mp same)
  · exact complete (beq_iff_eq.mp same)

/-- The unit of a number works on a group and has work for `left` more cycles. -/
def Busy (r : Rhythm) (job : Job SyntheticProgram FixedLatency Placer) (now unit group left : Nat) :
    Prop :=
  ∃ u, job.device.cluster.units[unit]? = some u ∧ u.group = some group ∧
    (u.outline now).DrainsIn r.program r.latency left

/-- What a cycle makes of a unit that has work left. -/
theorem Governs.cycled {g : WorkGroup} (governs : r.Governs job)
    (resident : job.device.cluster.units[unit]? = some u)
    (drains : (u.outline now).DrainsIn r.program r.latency (left + 1))
    (clock : job.device.cycle = now + 1) :
    let v := ((job.bench u).cycled u.order job.device.cycle g.id).unit
    v.Sound ∧ v.group = u.group ∧
      (v.outline job.device.cycle).DrainsIn r.program r.latency left := by
  intro v
  have sound := governs.follows.owned.sound unit u resident
  have follows := (governs.follows.units unit u resident).1
  rw [← governs.latency] at drains ⊢
  obtain ⟨running, rest⟩ := follows.drainsIn_next sound drains
  have cycled : v = u.next (now + 1)
      (u.asked r.program job.device.cluster.memory (now + 1)) := by
    rw [← governs.follows.isa, ← clock]
    exact (Bench.cycled_of_running (b := job.bench u) running _ _ _).1
  refine ⟨Bench.sound_cycled _ _ _ sound, Bench.cycled_group .., ?_⟩
  rw [cycled, clock]
  exact rest

/-- Nothing has happened but work. -/
structure Calm (after job : Job SyntheticProgram FixedLatency Placer) : Prop where
  idle : after.device.idle = job.device.idle
  busy : after.device.busy = job.device.busy
  placement : after.device.placement = job.device.placement
  pending : after.launch.pending = job.launch.pending
  dispatches : ofAction .run after.trace = ofAction .run job.trace
  completions : ofAction .complete after.trace = ofAction .complete job.trace

/-- All that a unit adds to the dispatches and completions is the completion of its group. -/
theorem Governs.ofAction_stepped (governs : r.Governs job) (unit : Nat) (u : ComputeUnit)
    (g : WorkGroup) {action : Action} (milestone : action = .run ∨ action = .complete) :
    ofAction action (job.stepped unit u g).trace = ofAction action job.trace ++ ofAction action
      (if ((job.bench u).cycled u.order job.device.cycle g.id).unit.isDrained then
        [completion job.device.cycle unit g.id] else []) := by
  obtain ⟨-, trace⟩ := trace_stepped governs.keepsAll unit u g
  have silent : ((job.bench u).cycled u.order job.device.cycle g.id).events.filter
      (·.action == action) = [] := ofAction_cycled rfl milestone
  rw [trace, ofAction, List.filter_append, List.filter_append, silent, List.nil_append]
  rfl

/-- A unit with work for more than one cycle goes on. -/
theorem Governs.works_calm {group : Nat} (governs : r.Governs job) (works : job.Works unit after)
    (busy : r.Busy job now unit group (left + 2)) (clock : job.device.cycle = now + 1) :
    Calm after job ∧ r.Busy after job.device.cycle unit group (left + 1) := by
  obtain ⟨u, resident, held, drains⟩ := busy
  cases works with
  | @intro v g resident' held' found runs =>
      cases resident.symm.trans resident'
      let bench := (job.bench u).cycled u.order job.device.cycle g.id
      obtain ⟨sound, sameGroup, rest⟩ := governs.cycled (g := g) resident drains clock
      have running : bench.unit.isDrained = false := (sound.isDrained_outline _).symm.trans rest.1
      have stepped : job.stepped unit u g = job.worked unit bench :=
        if_neg (ne_true_of_eq_false running)
      have quiet : ∀ action, action = .run ∨ action = .complete →
          ofAction action (job.stepped unit u g).trace = ofAction action job.trace := by
        intro action milestone
        rw [governs.ofAction_stepped unit u g milestone, if_neg (ne_true_of_eq_false running)]
        exact List.append_nil _
      have calm : Calm (job.stepped unit u g) job := by
        refine ⟨?_, ?_, ?_, ?_, quiet .run (.inl rfl), quiet .complete (.inr rfl)⟩ <;>
        · rw [stepped]
          rfl
      refine ⟨calm, bench.unit, ?_, sameGroup.trans held, rest⟩
      rw [getElem?_stepped resident, if_pos rfl, release_of_not_drained running]

/-- A unit with work for one cycle is relieved of its group. -/
theorem Governs.works_last {group : Nat} (governs : r.Governs job) (works : job.Works unit after)
    (busy : r.Busy job now unit group 1) (clock : job.device.cycle = now + 1) :
    after.device.idle = job.device.idle.push unit ∧
      after.device.busy = job.device.busy.remove unit ∧
      after.device.placement = job.device.placement ∧
      after.launch.pending = job.launch.pending ∧
      ofAction .run after.trace = ofAction .run job.trace ∧
      ofAction .complete after.trace =
        ofAction .complete job.trace ++ [completion job.device.cycle unit group] := by
  obtain ⟨u, resident, held, drains⟩ := busy
  cases works with
  | @intro v g resident' held' found runs =>
      cases resident.symm.trans resident'
      cases held.symm.trans held'
      let bench := (job.bench u).cycled u.order job.device.cycle g.id
      obtain ⟨sound, sameGroup, rest⟩ := governs.cycled (g := g) resident drains clock
      have drained : bench.unit.isDrained = true := (sound.isDrained_outline _).symm.trans rest
      have stepped : job.stepped unit u g = (job.worked unit bench).relieved unit bench.unit g :=
        if_pos drained
      have told : ∀ action, action = .run ∨ action = .complete →
          ofAction action (job.stepped unit u g).trace = ofAction action job.trace ++
            ofAction action [completion job.device.cycle unit g.id] := by
        intro action milestone
        rw [governs.ofAction_stepped unit u g milestone, if_pos drained]
      refine ⟨?_, ?_, ?_, ?_, (told .run (.inl rfl)).trans (List.append_nil _),
        told .complete (.inr rfl)⟩ <;>
      · rw [stepped]
        rfl

/-! ## A cycle of the device -/

theorem Calm.trans {a b d : Job SyntheticProgram FixedLatency Placer} (second : Calm a b)
    (first : Calm b d) : Calm a d where
  idle := second.idle.trans first.idle
  busy := second.busy.trans first.busy
  placement := second.placement.trans first.placement
  pending := second.pending.trans first.pending
  dispatches := second.dispatches.trans first.dispatches
  completions := second.completions.trans first.completions

theorem Busy.congr {group : Nat} (busy : r.Busy job now unit group left)
    (same : after.device.cluster.units[unit]? = job.device.cluster.units[unit]?) :
    r.Busy after now unit group left := by
  obtain ⟨u, resident, rest⟩ := busy
  exact ⟨u, same.trans resident, rest⟩

/-- What is left to do for the units that are still to work in a cycle is not touched by the first
of them. -/
theorem busy_of_works {units : List Nat} {group : Nat → Nat} (works : job.Works unit next)
    (fresh : unit ∉ units) (busy : ∀ other ∈ units, r.Busy job now other (group other) left) :
    ∀ other ∈ units, r.Busy next now other (group other) left := by
  intro other member
  have differs : other ≠ unit := fun same => fresh (same ▸ member)
  exact (busy other member).congr (works.getElem?_units differs)

/-- In a cycle that is not the last of a batch, every unit works and nothing else happens. -/
theorem Governs.sweeps_calm {units : List Nat} {group : Nat → Nat} (governs : r.Governs job)
    (sweeps : Sweeps units job after) (distinct : units.Nodup)
    (busy : ∀ unit ∈ units, r.Busy job now unit (group unit) (left + 2))
    (clock : job.device.cycle = now + 1) :
    Calm after job ∧
      ∀ unit ∈ units, r.Busy after job.device.cycle unit (group unit) (left + 1) := by
  induction sweeps with
  | nil => exact ⟨⟨rfl, rfl, rfl, rfl, rfl, rfl⟩, nofun⟩
  | @cons unit rest job next after works sweeps ih =>
      obtain ⟨fresh, distinct⟩ := List.nodup_cons.mp distinct
      obtain ⟨calm, here⟩ := governs.works_calm works (busy unit (List.mem_cons_self ..)) clock
      obtain ⟨calm', others⟩ := ih (governs.works works) distinct
        (busy_of_works works fresh fun other member => busy other (List.mem_cons_of_mem _ member))
        (works.cycle_eq.trans clock)
      refine ⟨calm'.trans calm, fun other member => ?_⟩
      rcases List.mem_cons.mp member with rfl | later
      · exact here.congr (sweeps.getElem?_units fresh)
      · exact works.cycle_eq ▸ others other later

/-- The units have finished and are idle again, in the order in which they have worked. -/
structure Relieved (units idle : List Nat) (ended : List TraceEvent)
    (after job : Job SyntheticProgram FixedLatency Placer) : Prop where
  idle : after.device.idle.Lists (idle ++ units)
  busy : after.device.busy.Lists []
  placement : after.device.placement = job.device.placement
  pending : after.launch.pending = job.launch.pending
  dispatches : ofAction .run after.trace = ofAction .run job.trace
  completions : ofAction .complete after.trace = ofAction .complete job.trace ++ ended

/-- In the last cycle of a batch every unit finishes. -/
theorem Governs.sweeps_last {units idle : List Nat} {group : Nat → Nat} (governs : r.Governs job)
    (sweeps : Sweeps units job after) (idleListed : job.device.idle.Lists idle)
    (busyListed : job.device.busy.Lists units)
    (busy : ∀ unit ∈ units, r.Busy job now unit (group unit) 1)
    (clock : job.device.cycle = now + 1) :
    Relieved units idle (units.map fun unit => completion job.device.cycle unit (group unit))
      after job := by
  induction sweeps generalizing idle with
  | nil =>
      have same : idle ++ [] = idle := List.append_nil _
      exact ⟨same.symm ▸ idleListed, busyListed, rfl, rfl, rfl, (List.append_nil _).symm⟩
  | @cons unit rest job next after works sweeps ih =>
      obtain ⟨fresh, -⟩ := List.nodup_cons.mp busyListed.distinct
      have here := busy unit (List.mem_cons_self ..)
      obtain ⟨joins, leaves, placement, pending, dispatches, completions⟩ :=
        governs.works_last works here clock
      have holds : job.Holds unit (group unit) := by
        obtain ⟨u, resident, held, -⟩ := here
        exact ⟨u, resident, held⟩
      obtain ⟨idle', -, idleListed', -, -, notIdle, inside⟩ :=
        governs.follows.owned.lists_of_holds holds
      obtain rfl : idle' = idle := idleListed'.toList_eq.symm.trans idleListed.toList_eq
      have idleNext : next.device.idle.Lists (idle' ++ [unit]) :=
        joins ▸ idleListed.push inside notIdle
      have busyNext : next.device.busy.Lists rest := by
        have removed := busyListed.remove (List.mem_cons_self ..)
        rwa [List.erase_cons_head, ← leaves] at removed
      have others := ih (governs.works works) idleNext busyNext
        (busy_of_works works fresh fun other member => busy other (List.mem_cons_of_mem _ member))
        (works.cycle_eq.trans clock)
      refine ⟨?_, others.busy, others.placement.trans placement, others.pending.trans pending,
        others.dispatches.trans dispatches, ?_⟩
      · rw [List.append_cons]
        exact others.idle
      · rw [others.completions, completions, works.cycle_eq, List.append_assoc]
        rfl

/-! ## A batch -/

/-- The first `k` groups of batch `b` are in hand, and their units have work for `left` more
cycles. -/
structure InHand (r : Rhythm) (b k left : Nat) (job : Job SyntheticProgram FixedLatency Placer) :
    Prop where
  governs : r.Governs job
  clock : job.device.cycle + left = (b + 1) * r.steps
  idle : job.device.idle.Lists (List.range' k (r.units - k))
  busy : job.device.busy.Lists (List.range k)
  held : ∀ unit ∈ List.range k, r.Busy job job.device.cycle unit (b * r.units + unit) left
  orderly : job.device.placement.Orderly r.units k
  pending : job.launch.pending = List.range' (b * r.units + k) (r.groups - (b * r.units + k))
  dispatches : ofAction .run job.trace = (List.range (b * r.units + k)).map r.dispatchOf
  completions : ofAction .complete job.trace = (List.range (b * r.units)).map r.completionOf

theorem InHand.canDispatch_eq (inHand : r.InHand b k left job) :
    job.canDispatch = decide (k < r.batchSize b) := by
  rw [canDispatch, inHand.idle.isEmpty_eq, NdRange.hasPending, inHand.pending, batchSize]
  rw [Bool.eq_iff_iff, decide_eq_true_iff]
  simp only [Bool.and_eq_true, Bool.not_eq_true', List.isEmpty_eq_false_iff, ne_eq,
    List.range'_eq_nil_iff]
  omega

/-- A unit that is dealt a group has work for as many cycles as any other. -/
theorem Governs.busy_loaded {group : Nat} {wavefronts : List Wavefront} (governs : r.Governs job)
    (resident : job.device.cluster.units[unit]? = some u) (free : u.group = none)
    (listed : job.launch.wavefrontsOf group = .ok wavefronts)
    (dealt : after.device.cluster.units[unit]? = some (u.loaded group wavefronts)) :
    r.Busy after now unit group r.steps := by
  refine ⟨_, dealt, rfl, ?_⟩
  rw [(governs.follows.owned.sound unit u resident).outline_loaded free,
    (governs.follows.units unit u resident).2]
  exact governs.duration group wavefronts listed

/-- The next group of a batch has been dealt to the next unit. -/
theorem InHand.handed {g : WorkGroup} {rest : List Nat} {wavefronts : List Wavefront}
    {placement : Placer} (inHand : r.InHand b k r.steps job) (inside : k < r.units)
    (reliable : Placement.Reliable placement) (orderly : placement.Orderly r.units (k + 1))
    (named : g.id = b * r.units + k)
    (queued : rest = List.range' (b * r.units + (k + 1)) (r.groups - (b * r.units + (k + 1))))
    (pending : job.launch.pending = g.id :: rest) (found : job.launch.groups[g.id]? = some g)
    (waits : g.phase = .pending) (listed : job.launch.wavefrontsOf g.id = .ok wavefronts)
    (resident : job.device.cluster.units[k]? = some u) (free : u.group = none) :
    r.InHand b (k + 1) r.steps (job.handed placement k u g rest wavefronts) := by
  have owned := inHand.governs.follows.owned
  have hands : job.Hands (job.handed placement k u g rest wavefronts) :=
    .intro reliable pending found waits listed resident free
  have units : ∀ other, (job.handed placement k u g rest wavefronts).device.cluster.units[other]? =
      if other = k then some (u.loaded g.id wavefronts) else job.device.cluster.units[other]? :=
    getElem?_setUnit resident
  obtain ⟨-, -, -, -, -, -, bound⟩ := owned.lists_of_rests ⟨u, resident, free⟩
  have idle : List.range' k (r.units - k) = k :: List.range' (k + 1) (r.units - (k + 1)) := by
    rw [show r.units - k = r.units - (k + 1) + 1 by omega, List.range'_succ]
  have cycle : job.device.cycle = b * r.steps := by
    have clock := inHand.clock
    rw [Nat.add_mul, Nat.one_mul] at clock
    exact Nat.add_right_cancel clock
  have told : (job.handed placement k u g rest wavefronts).trace =
      job.trace ++ [dispatch (job.device.cycle + 1) k g.id] := inHand.governs.keepsAll.toList_record _
  exact {
    governs := inHand.governs.hands hands
    clock := inHand.clock
    idle := by
      have listed := inHand.idle
      rw [idle] at listed
      have left := listed.unlink_erase (List.mem_cons_self ..)
      rwa [List.erase_cons_head] at left
    busy := by
      rw [List.range_succ]
      exact inHand.busy.push bound (by simp)
    held := fun unit member => by
      rw [List.range_succ, List.mem_append, List.mem_singleton] at member
      rcases member with earlier | rfl
      · have differs : unit ≠ k := Nat.ne_of_lt (List.mem_range.mp earlier)
        exact (inHand.held unit earlier).congr ((units unit).trans (if_neg differs))
      · rw [← named]
        exact inHand.governs.busy_loaded resident free listed ((units unit).trans (if_pos rfl))
    orderly
    pending := queued
    dispatches := by
      rw [told, ofAction, List.filter_append, ← Nat.add_assoc, List.range_succ, List.map_append,
        ← inHand.dispatches, List.map_singleton, dispatchOf_eq inside, named, cycle]
      rfl
    completions := by
      rw [told, ofAction, List.filter_append, ← inHand.completions]
      exact List.append_nil _ }

/-- The next group of a batch is dealt to the next unit. -/
theorem InHand.deal (inHand : r.InHand b k r.steps job) (more : k < r.batchSize b) :
    ∃ next, dispatchOne.outcome job = (.ok true, next) ∧ job.Does (.deal k) next ∧
      r.InHand b (k + 1) r.steps next := by
  have owned := inHand.governs.follows.owned
  have inside : k < r.units := Nat.lt_of_lt_of_le more (Nat.min_le_left ..)
  have waits : b * r.units + k < r.groups := by
    have bound := Nat.lt_of_lt_of_le more (Nat.min_le_right ..)
    omega
  have member : k ∈ List.range' k (r.units - k) := by
    rw [List.mem_range'_1]
    omega
  obtain ⟨placement, picked, orderly⟩ := inHand.orderly.pick inHand.idle inside
  obtain ⟨_, -, _, picked', reliable⟩ :=
    owned.placement.pick inHand.idle (List.ne_nil_of_mem member)
  cases picked.symm.trans picked'
  have pending : job.launch.pending = (b * r.units + k) ::
      List.range' (b * r.units + (k + 1)) (r.groups - (b * r.units + (k + 1))) := by
    rw [inHand.pending, show r.groups - (b * r.units + k) =
      r.groups - (b * r.units + (k + 1)) + 1 by omega, List.range'_succ]
    rfl
  obtain ⟨g, found, isPending⟩ := (owned.launch.waiting (b * r.units + k)).mp (by simp [pending])
  have named := owned.launch.named _ g found
  rw [← named] at found pending
  have listed := NdRange.wavefrontsOf_of_found found
  have isIdle : job.device.idle.contains k = true := (inHand.idle.member k).mpr member
  obtain ⟨u, resident, free⟩ := (owned.idle k).mp isIdle
  exact ⟨_, dispatchOne_outcome picked isIdle pending found isPending listed resident free,
    .deal pending found listed resident,
    inHand.handed inside reliable orderly named rfl pending found isPending listed resident free⟩

/-- Dispatch deals all groups of a batch. -/
theorem InHand.dispatchUpTo {limit : Nat} (inHand : r.InHand b k r.steps job)
    (within : k ≤ r.batchSize b) (enough : r.units - k ≤ limit) :
    ∃ count placed, (dispatchUpTo limit).outcome job = (.ok count, placed) ∧
      Performs ((List.range' k (r.batchSize b - k)).map .deal) job placed ∧
      r.InHand b (r.batchSize b) r.steps placed := by
  induction limit generalizing k job with
  | zero =>
      have whole : k = r.batchSize b := by
        have bound : r.batchSize b ≤ r.units := Nat.min_le_left ..
        omega
      subst whole
      rw [Nat.sub_self]
      exact ⟨0, job, rfl, .nil job, inHand⟩
  | succ limit ih =>
      have possible := inHand.canDispatch_eq
      rcases Nat.eq_or_lt_of_le within with rfl | more
      · rw [decide_eq_false (Nat.lt_irrefl _)] at possible
        rw [Nat.sub_self]
        exact ⟨0, job, dispatchUpTo_of_full possible _, .nil job, inHand⟩
      · rw [decide_eq_true more] at possible
        obtain ⟨next, first, does, dealt⟩ := inHand.deal more
        obtain ⟨count, placed, others, performs, all⟩ := ih dealt more (by omega)
        refine ⟨count + 1, placed, dispatchUpTo_succ possible first others, ?_, all⟩
        rw [show r.batchSize b - k = r.batchSize b - (k + 1) + 1 by omega, List.range'_succ]
        exact .cons does performs

/-- A batch begins with its dispatch. -/
theorem InHand.place (inHand : r.InHand b 0 r.steps job) (some_groups : 0 < r.batchSize b) :
    ∃ placed, place.outcome job = (.ok (), placed) ∧
      Performs ((List.range (r.batchSize b)).map .deal) job placed ∧
      r.InHand b (r.batchSize b) r.steps placed := by
  have possible : job.canDispatch = true :=
    inHand.canDispatch_eq.trans (decide_eq_true some_groups)
  have enough : r.units - 0 ≤ job.device.idle.size := by
    rw [inHand.idle.size, List.length_range']
  obtain ⟨count, placed, dispatched, performs, all⟩ := inHand.dispatchUpTo (Nat.zero_le _) enough
  refine ⟨placed, ?_, ?_, all⟩
  · have done : dispatch.outcome job = (.ok count, placed) := dispatched
    rw [place_outcome, possible, if_pos rfl, Attempt.outcome_bind_of_ok done]
    rfl
  · rwa [Nat.sub_zero, ← List.range_eq_range'] at performs

/-- What happens in a cycle in which a batch of some size is in hand. -/
def cycleActs (size : Nat) : List Act := .tick :: (List.range size).map .work

/-- In every cycle of the device all units of a batch work. -/
theorem InHand.sweeps (inHand : r.InHand b k left job) :
    ∃ next, advance.outcome job = (.ok (), next) ∧ Performs (cycleActs k) job next ∧
      Sweeps (List.range k) job.ticked next := by
  obtain ⟨next, sweeps, advanced⟩ := inHand.governs.follows.owned.advance
  rw [inHand.busy.toList_eq] at sweeps
  exact ⟨next, advanced, .cons .tick sweeps.performs, sweeps⟩

theorem InHand.advance (inHand : r.InHand b k (left + 2) job) :
    ∃ next, advance.outcome job = (.ok (), next) ∧ Performs (cycleActs k) job next ∧
      r.InHand b k (left + 1) next := by
  obtain ⟨next, advanced, performs, sweeps⟩ := inHand.sweeps
  have governs := inHand.governs.ticked
  obtain ⟨calm, held⟩ := governs.sweeps_calm sweeps List.nodup_range inHand.held rfl
  have cycle : next.device.cycle = job.device.cycle + 1 := sweeps.cycle_eq
  refine ⟨next, advanced, performs, ?_⟩
  exact {
    governs := governs.sweeps sweeps
    clock := by
      have clock := inHand.clock
      omega
    idle := calm.idle ▸ inHand.idle
    busy := calm.busy ▸ inHand.busy
    held := cycle ▸ held
    orderly := calm.placement ▸ inHand.orderly
    pending := calm.pending.trans inHand.pending
    dispatches := calm.dispatches.trans inHand.dispatches
    completions := calm.completions.trans inHand.completions }

/-- The first `count` groups are done, and no other has been dispatched. -/
structure Rested (r : Rhythm) (count : Nat) (job : Job SyntheticProgram FixedLatency Placer) :
    Prop where
  governs : r.Governs job
  busy : job.device.busy.Lists []
  pending : job.launch.pending = List.range' count (r.groups - count)
  dispatches : ofAction .run job.trace = (List.range count).map r.dispatchOf
  completions : ofAction .complete job.trace = (List.range count).map r.completionOf

/-- After a batch of the full size the next one can begin. -/
structure Closed (r : Rhythm) (b : Nat) (job : Job SyntheticProgram FixedLatency Placer) :
    Prop where
  rested : r.Rested (b * r.units + r.batchSize b) job
  clock : job.device.cycle = (b + 1) * r.steps
  whole : r.batchSize b = r.units → r.InHand (b + 1) 0 r.steps job

/-- A batch ends with the cycle in which all its units finish. -/
theorem InHand.advance_last (inHand : r.InHand b (r.batchSize b) 1 job) :
    ∃ next, Job.advance.outcome job = (.ok (), next) ∧
      Performs (cycleActs (r.batchSize b)) job next ∧ r.Closed b next := by
  obtain ⟨next, advanced, performs, sweeps⟩ := inHand.sweeps
  have governs := inHand.governs.ticked
  have relieved := governs.sweeps_last sweeps inHand.idle inHand.busy inHand.held rfl
  have clock : next.device.cycle = (b + 1) * r.steps := sweeps.cycle_eq.trans inHand.clock
  have ended : (List.range (r.batchSize b)).map (fun unit =>
      completion job.ticked.device.cycle unit (b * r.units + unit)) =
        (List.range (r.batchSize b)).map fun k => r.completionOf (b * r.units + k) := by
    refine List.map_congr_left fun k member => ?_
    have inside : k < r.units := Nat.lt_of_lt_of_le (List.mem_range.mp member) (Nat.min_le_left ..)
    rw [completionOf_eq inside, ← inHand.clock]
    rfl
  have rested : r.Rested (b * r.units + r.batchSize b) next := {
    governs := governs.sweeps sweeps
    busy := relieved.busy
    pending := relieved.pending.trans inHand.pending
    dispatches := relieved.dispatches.trans inHand.dispatches
    completions := by
      rw [relieved.completions, ended, List.range_add, List.map_append, List.map_map,
        ← inHand.completions]
      rfl }
  refine ⟨next, advanced, performs, rested, clock, fun whole => ?_⟩
  have first : (b + 1) * r.units = b * r.units + r.batchSize b := by
    rw [whole, Nat.add_mul, Nat.one_mul]
  exact {
    governs := rested.governs
    clock := by rw [clock, ← Nat.succ_mul]
    idle := by
      have idle := relieved.idle
      rw [whole, Nat.sub_self] at idle
      rwa [Nat.sub_zero, ← List.range_eq_range']
    busy := rested.busy
    held := nofun
    orderly := by
      have orderly := inHand.orderly
      rw [whole] at orderly
      exact relieved.placement ▸ orderly.wrap
    pending := by
      rw [Nat.add_zero, first]
      exact rested.pending
    dispatches := by
      rw [Nat.add_zero, first]
      exact rested.dispatches
    completions := by
      rw [first]
      exact rested.completions }

end Rhythm

end Accelerator
