import Accelerator.Proofs.Device.Chronicle

/-!
# How long groups stay on units

Groups leave the queue in the order of their numbers, each for one unit, and stay there until they
are done. `Story` is what a trace tells of a group in each phase of its life, and `Job.Dispatched`
says that the trace tells it of every group, in the order in which things happen.

A dispatch carries the number of the cycle to come. So it comes after everything that its unit has
done for other groups, and not only after the completion of the last one.
-/

namespace Accelerator

/-! ## Events of groups -/

namespace TraceEvent

/-- A group is dispatched to a unit. -/
def dispatch (cycle unit group : Nat) : TraceEvent := { cycle, unit, group, action := .run }

/-- A unit has finished a group. -/
def completion (cycle unit group : Nat) : TraceEvent := { cycle, unit, group, action := .complete }

/-- The events about one group. -/
def ofGroup (group : Nat) (events : List TraceEvent) : List TraceEvent :=
  events.filter (·.group == group)

/-- The groups that are dispatched, in the order of their dispatch. -/
def dispatched (events : List TraceEvent) : List Nat :=
  (events.filter (·.action == .run)).map (·.group)

/-- Some stage of a unit reports something. -/
def IsOfStage (e : TraceEvent) (unit : Nat) : Prop :=
  e.unit = unit ∧ e.stage.isSome = true ∧ e.action ≠ .run ∧ e.action ≠ .complete

variable {group : Nat} {events news : List TraceEvent}

theorem ofGroup_append :
    ofGroup group (events ++ news) = ofGroup group events ++ ofGroup group news :=
  List.filter_append ..

theorem ofGroup_eq_self (same : ∀ e ∈ events, e.group = group) : ofGroup group events = events :=
  List.filter_eq_self.mpr fun e member => beq_iff_eq.mpr (same e member)

theorem ofGroup_eq_nil (differs : ∀ e ∈ events, e.group ≠ group) : ofGroup group events = [] := by
  refine List.filter_eq_nil_iff.mpr fun e member same => ?_
  exact differs e member (beq_iff_eq.mp same)

theorem mem_of_mem_ofGroup {e : TraceEvent} (member : e ∈ ofGroup group events) : e ∈ events :=
  List.mem_of_mem_filter member

theorem dispatched_append :
    dispatched (events ++ news) = dispatched events ++ dispatched news := by
  rw [dispatched, List.filter_append, List.map_append]
  rfl

theorem dispatched_eq_nil (others : ∀ e ∈ events, e.action ≠ .run) : dispatched events = [] := by
  have none : events.filter (·.action == .run) = [] :=
    List.filter_eq_nil_iff.mpr fun e member same => others e member (beq_iff_eq.mp same)
  rw [dispatched, none]
  rfl

end TraceEvent

open TraceEvent

/-! ## The story of a group -/

/-- What a trace tells of a group in some phase. -/
inductive Story (trace : List TraceEvent) (group : Nat) : Phase → Prop
  | pending (nothing : ofGroup group trace = []) : Story trace group .pending
  /-- Whatever its unit has done for other groups was before. -/
  | running {unit start : Nat} {stages : List TraceEvent}
      (told : ofGroup group trace = dispatch start unit group :: stages)
      (staged : ∀ e ∈ stages, e.IsOfStage unit ∧ start ≤ e.cycle)
      (alone : ∀ e ∈ trace, e.unit = unit → e.group ≠ group → e.cycle < start) :
      Story trace group (.running unit)
  /-- Whatever its unit does for other groups is before or after. -/
  | done {unit start stop : Nat} {stages : List TraceEvent}
      (told : ofGroup group trace =
        dispatch start unit group :: (stages ++ [completion stop unit group]))
      (ordered : start ≤ stop)
      (staged : ∀ e ∈ stages, e.IsOfStage unit ∧ start ≤ e.cycle ∧ e.cycle ≤ stop)
      (alone : ∀ e ∈ trace, e.unit = unit → e.group ≠ group → e.cycle < start ∨ stop < e.cycle) :
      Story trace group (.done unit)

namespace Story

variable {trace news : List TraceEvent} {unit group other cycle : Nat} {phase : Phase}

/-- Nothing changes for a group when another one is worked on, after all that the unit has done for
groups like the first. -/
theorem append_other (story : Story trace group phase)
    (about : ∀ e ∈ news, e.unit = unit ∧ e.group = other ∧ cycle ≤ e.cycle) (differs : group ≠ other)
    (elsewhere : phase ≠ .running unit)
    (clear : ∀ e ∈ trace, e.unit = unit → e.group ≠ other → e.cycle < cycle) :
    Story (trace ++ news) group phase := by
  have events : ofGroup group (trace ++ news) = ofGroup group trace := by
    have none : ofGroup group news = [] :=
      ofGroup_eq_nil fun e member => (about e member).2.1 ▸ differs.symm
    rw [ofGroup_append, none, List.append_nil]
  cases story with
  | pending nothing => exact .pending (events.trans nothing)
  | @running resident start stages told staged alone =>
      refine .running (events.trans told) staged fun e member here others => ?_
      rcases List.mem_append.mp member with old | new
      · exact alone e old here others
      · have same : unit = resident := (about e new).1.symm.trans here
        exact absurd (same ▸ rfl) elsewhere
  | @done resident start stop stages told ordered staged alone =>
      refine .done (events.trans told) ordered staged fun e member here others => ?_
      rcases List.mem_append.mp member with old | new
      · exact alone e old here others
      · obtain ⟨unit', group', late⟩ := about e new
        have last : completion stop resident group ∈ ofGroup group trace := by
          rw [told]
          simp
        have before := clear _ (mem_of_mem_ofGroup last) (here.symm.trans unit') differs
        exact Or.inr (Nat.lt_of_lt_of_le before late)

/-- A waiting group is dispatched to a unit that has done nothing in the cycle to come. -/
theorem dispatched (story : Story trace group .pending)
    (clear : ∀ e ∈ trace, e.unit = unit → e.cycle < cycle) :
    Story (trace ++ [dispatch cycle unit group]) group (.running unit) := by
  cases story with
  | pending nothing =>
      have told : ofGroup group (trace ++ [dispatch cycle unit group]) =
          [dispatch cycle unit group] := by
        rw [ofGroup_append, nothing, ofGroup_eq_self (by simp [dispatch]), List.nil_append]
      refine .running told nofun fun e member here others => ?_
      rcases List.mem_append.mp member with old | new
      · exact clear e old here
      · rw [List.mem_singleton.mp new] at others
        exact absurd rfl others

/-- The unit of a running group works on it. -/
theorem worked (story : Story trace group (.running unit)) (past : ∀ e ∈ trace, e.cycle ≤ cycle)
    (about : ∀ e ∈ news, e.IsOfStage unit ∧ e.group = group ∧ e.cycle = cycle) :
    Story (trace ++ news) group (.running unit) := by
  cases story with
  | @running _ start stages told staged alone =>
      have first : dispatch start unit group ∈ ofGroup group trace := by
        rw [told]
        exact List.mem_cons_self ..
      have begun : start ≤ cycle := past _ (mem_of_mem_ofGroup first)
      have told' : ofGroup group (trace ++ news) =
          dispatch start unit group :: (stages ++ news) := by
        rw [ofGroup_append, told, ofGroup_eq_self fun e member => (about e member).2.1,
          List.cons_append]
      refine .running told' (fun e member => ?_) fun e member here others => ?_
      · rcases List.mem_append.mp member with old | new
        · exact staged e old
        · exact ⟨(about e new).1, (about e new).2.2 ▸ begun⟩
      · rcases List.mem_append.mp member with old | new
        · exact alone e old here others
        · exact absurd (about e new).2.1 others

/-- The unit of a running group has finished it. -/
theorem completed (story : Story trace group (.running unit)) (past : ∀ e ∈ trace, e.cycle ≤ cycle) :
    Story (trace ++ [completion cycle unit group]) group (.done unit) := by
  cases story with
  | @running _ start stages told staged alone =>
      have earlier : ∀ e ∈ dispatch start unit group :: stages, e.cycle ≤ cycle := by
        intro e member
        rw [← told] at member
        exact past e (mem_of_mem_ofGroup member)
      have told' : ofGroup group (trace ++ [completion cycle unit group]) =
          dispatch start unit group :: (stages ++ [completion cycle unit group]) := by
        rw [ofGroup_append, told, ofGroup_eq_self (by simp [completion]), List.cons_append]
      refine .done told' (earlier _ (List.mem_cons_self ..)) (fun e member => ?_)
        fun e member here others => ?_
      · obtain ⟨stage, late⟩ := staged e member
        exact ⟨stage, late, earlier e (List.mem_cons_of_mem _ member)⟩
      · rcases List.mem_append.mp member with old | new
        · exact Or.inl (alone e old here others)
        · rw [List.mem_singleton.mp new] at others
          exact absurd rfl others

end Story

/-! ## What a cycle of a unit reports -/

namespace Sink

variable {s : Sink}

theorem KeepsAll.toList_record (keeps : s.KeepsAll) (e : TraceEvent) :
    (s.record e).events.toList = s.events.toList ++ [e] := by
  obtain ⟨kept, rfl⟩ := keeps
  simp [Sink.record, Sink.events]

theorem KeepsAll.toList_recordStages (keeps : s.KeepsAll) (events : List TraceEvent) :
    (s.recordStages events).events.toList = s.events.toList ++ events := by
  obtain ⟨kept, rfl⟩ := keeps
  rw [recordStages_keep]
  simp [Sink.events]

end Sink

/-- Stages report what they do with a slot. -/
theorem ComputeUnit.isOfStage_of_mem_stageEvents {u : ComputeUnit} {cycle group : Nat} {a : Answers}
    {stage : Stage} {e : TraceEvent} (member : e ∈ u.stageEvents cycle group a stage) :
    e.IsOfStage u.id ∧ e.group = group ∧ e.cycle = cycle := by
  simp only [stageEvents, List.mem_append, List.mem_map, List.mem_ite_nil_right] at member
  rcases member with ((⟨slot, -, rfl⟩ | ⟨-, ex, -, rfl⟩) | ⟨slot, -, rfl⟩) | ⟨-, slot, -, rfl⟩ <;>
    exact ⟨⟨rfl, rfl, by rintro ⟨⟩, by rintro ⟨⟩⟩, rfl, rfl⟩

/-- Every event of a cycle of a unit is of a stage, and of that cycle. -/
theorem Bench.isOfStage_of_mem_cycled {ι μ : Type} [InstructionModel ι] [MemoryService μ]
    {b : Bench ι μ} (clear : b.events = []) {order : StageOrder} {cycle group : Nat}
    {e : TraceEvent} (member : e ∈ (b.cycled order cycle group).events) :
    e.IsOfStage b.unit.id ∧ e.group = group ∧ e.cycle = cycle := by
  unfold Bench.cycled at member
  split at member
  · rw [clear] at member
    cases member
  · simp only [Bench.after, clear, List.nil_append, List.mem_flatMap] at member
    obtain ⟨stage, -, member⟩ := member
    exact ComputeUnit.isOfStage_of_mem_stageEvents member

namespace Job

open Relation

variable {ι μ π : Type} [Placement π] {job after : Job ι μ π} {now unit : Nat}

/-! ## The trace of a device -/

/-- The events that have been kept, in the order in which they were recorded. -/
abbrev trace (job : Job ι μ π) : List TraceEvent := job.device.sink.events.toList

/-- Every event has been kept, and the events tell of each group what they should. None of them is of
a cycle after `now`. -/
structure Dispatched (now : Nat) (job : Job ι μ π) : Prop where
  owned : job.Owned
  keeps : job.device.sink.KeepsAll
  /-- There is somebody to do the work. -/
  staffed : ∃ (unit : Nat) (u : ComputeUnit), job.device.cluster.units[unit]? = some u
  /-- Groups leave the queue in the order of their numbers. -/
  queued : dispatched job.trace ++ job.launch.pending = List.range job.launch.groupCount
  ascending : job.trace.Pairwise (·.cycle ≤ ·.cycle)
  past : ∀ e ∈ job.trace, e.cycle ≤ now
  /-- A unit that rests has done nothing in a cycle to come. -/
  rested : ∀ unit, job.Rests unit → ∀ e ∈ job.trace, e.unit = unit → e.cycle ≤ job.device.cycle
  told : ∀ (group : Nat) (g : WorkGroup), job.launch.groups[group]? = some g →
    Story job.trace group g.phase

/-- Events are recorded in the order of their cycles if the new ones are no earlier than the old. -/
theorem pairwise_append_cycle {trace news : List TraceEvent} {cycle : Nat}
    (ascending : trace.Pairwise (·.cycle ≤ ·.cycle)) (past : ∀ e ∈ trace, e.cycle ≤ cycle)
    (same : ∀ e ∈ news, e.cycle = cycle) : (trace ++ news).Pairwise (·.cycle ≤ ·.cycle) := by
  refine List.pairwise_append.mpr ⟨ascending, ?_, fun e old f new => same f new ▸ past e old⟩
  exact List.pairwise_of_forall_mem_list fun e first f second =>
    ((same e first).trans (same f second).symm).le

/-! ## Dispatch -/

/-- The group that has waited longest is dispatched, and the dispatch is of the cycle to come. -/
theorem Dispatched.hands (told : job.Dispatched (job.device.cycle + 1)) (hands : job.Hands after) :
    after.Dispatched (after.device.cycle + 1) := by
  have owned := hands.owned told.owned
  have shape := hands.sameRun.shape
  cases hands with
  | @intro placement unit u g rest wavefronts reliable pending found waits listed resident free =>
      let next := job.handed placement unit u g rest wavefronts
      have units : ∀ other, next.device.cluster.units[other]? =
          if other = unit then some (u.loaded g.id wavefronts)
          else job.device.cluster.units[other]? := getElem?_setUnit resident
      have trace : next.trace = job.trace ++ [TraceEvent.dispatch (job.device.cycle + 1) unit g.id] :=
        told.keeps.toList_record _
      have clear : ∀ e ∈ job.trace, e.unit = unit → e.cycle < job.device.cycle + 1 :=
        fun e member here => Nat.lt_succ_of_le (told.rested unit ⟨u, resident, free⟩ e member here)
      refine ⟨owned, told.keeps.record _, ⟨unit, _, (units unit).trans (if_pos rfl)⟩, ?_, ?_, ?_, ?_,
        ?_⟩
      · have queued := told.queued
        rw [pending] at queued
        rw [trace, dispatched_append, shape.groupCount, ← queued]
        simp [dispatched, TraceEvent.dispatch, handed, NdRange.start, NdRange.setPhase]
      · rw [trace]
        exact pairwise_append_cycle told.ascending told.past (by simp [TraceEvent.dispatch])
      · rw [trace]
        intro e member
        rcases List.mem_append.mp member with old | new
        · exact told.past e old
        · exact (List.mem_singleton.mp new ▸ Nat.le_refl _)
      · rw [trace]
        intro other rests e member here
        have differs : other ≠ unit := by
          rintro rfl
          exact absurd ((rests_iff units other).mp rests) (by simp [ComputeUnit.loaded])
        rcases List.mem_append.mp member with old | new
        · rw [rests_iff units, if_neg differs] at rests
          exact told.rested other rests e old here
        · rw [List.mem_singleton.mp new] at here
          exact absurd here.symm differs
      · rw [trace]
        intro group h here
        have started : next.launch.groups[group]? =
            if group = g.id then some { g with phase := .running unit }
            else job.launch.groups[group]? := NdRange.getElem?_start found group
        rw [started] at here
        by_cases same : group = g.id
        · subst same
          rw [if_pos rfl] at here
          cases here
          exact (waits ▸ told.told g.id g found).dispatched clear
        · rw [if_neg same] at here
          have elsewhere : h.phase ≠ .running unit := by
            intro runs
            obtain ⟨v, resident', held⟩ := (told.owned.owners unit group).mpr ⟨h, here, runs⟩
            cases resident.symm.trans resident'
            cases free.symm.trans held
          exact (told.told group h here).append_other (by simp [TraceEvent.dispatch]) same elsewhere
            fun e member here _ => clear e member here

theorem Dispatched.of_hands (told : job.Dispatched (job.device.cycle + 1))
    (path : ReflTransGen Hands job after) : after.Dispatched (after.device.cycle + 1) := by
  induction path with
  | refl => exact told
  | tail _ hands ih => exact ih.hands hands

/-! ## Work -/

section Work

variable [InstructionModel ι] [MemoryService μ] {u : ComputeUnit} {g : WorkGroup}

omit [InstructionModel ι] [MemoryService μ] in
/-- The unit of a group works on it for a cycle. Nothing changes for other groups. -/
theorem Dispatched.story_worked (told : job.Dispatched job.device.cycle)
    (resident : job.device.cluster.units[unit]? = some u) (held : u.group = some g.id)
    (found : job.launch.groups[g.id]? = some g) (runs : g.phase = .running unit)
    {news : List TraceEvent}
    (about : ∀ e ∈ news, e.unit = unit ∧ e.group = g.id ∧ e.cycle = job.device.cycle)
    {group : Nat} {h : WorkGroup} (here : job.launch.groups[group]? = some h)
    (differs : group ≠ g.id) : Story (job.trace ++ news) group h.phase := by
  have elsewhere : h.phase ≠ .running unit := by
    intro running
    obtain ⟨v, resident', held'⟩ := (told.owned.owners unit group).mpr ⟨h, here, running⟩
    cases resident.symm.trans resident'
    exact differs (Option.some.inj (held'.symm.trans held))
  -- What the unit has done for other groups was before it was given this one.
  have clear : ∀ e ∈ job.trace, e.unit = unit → e.group ≠ g.id → e.cycle < job.device.cycle := by
    have story := told.told g.id g found
    rw [runs] at story
    cases story with
    | @running _ start stages tells staged alone =>
        have first : TraceEvent.dispatch start unit g.id ∈ ofGroup g.id job.trace := by
          rw [tells]
          exact List.mem_cons_self ..
        have begun : start ≤ job.device.cycle := told.past _ (mem_of_mem_ofGroup first)
        exact fun e member same others => Nat.lt_of_lt_of_le (alone e member same others) begun
  refine (told.told group h here).append_other (fun e new => ?_) differs elsewhere clear
  obtain ⟨unit, group, cycle⟩ := about e new
  exact ⟨unit, group, cycle.ge⟩

omit [Placement π] in
/-- A unit that works reports what its stages do, and the completion of its group. -/
theorem trace_stepped (keeps : job.device.sink.KeepsAll) (unit : Nat) (u : ComputeUnit)
    (g : WorkGroup) :
    let bench := (job.bench u).cycled u.order job.device.cycle g.id
    (job.stepped unit u g).device.sink.KeepsAll ∧
      (job.stepped unit u g).trace = job.trace ++ (bench.events ++
        if bench.unit.isDrained then [completion job.device.cycle unit g.id] else []) := by
  intro bench
  have worked := keeps.toList_recordStages bench.events
  have keeps' := keeps.recordStages bench.events
  rcases job.stepped_cases unit u g with ⟨drained, stepped⟩ | ⟨running, stepped⟩
  · rw [stepped, if_pos drained, ← List.append_assoc, ← worked]
    exact ⟨keeps'.record _, keeps'.toList_record _⟩
  · rw [stepped, if_neg (ne_true_of_eq_false running), List.append_nil]
    exact ⟨keeps', worked⟩

/-- Whatever a unit reports of a cycle is about its group, and of that cycle. -/
theorem Dispatched.works (told : job.Dispatched job.device.cycle) (works : job.Works unit after) :
    after.Dispatched after.device.cycle := by
  have owned := works.owned told.owned
  have shape := works.sameRun.shape
  have cycle := works.cycle_eq
  rw [cycle]
  cases works with
  | @intro u g resident held found runs =>
      let next := job.stepped unit u g
      let bench := (job.bench u).cycled u.order job.device.cycle g.id
      let news := bench.events ++
        if bench.unit.isDrained then [completion job.device.cycle unit g.id] else []
      obtain ⟨keeps, trace⟩ : next.device.sink.KeepsAll ∧ next.trace = job.trace ++ news :=
        trace_stepped told.keeps unit u g
      have id : u.id = unit := told.owned.numbered unit u resident
      have ofStage : ∀ e ∈ bench.events,
          e.IsOfStage unit ∧ e.group = g.id ∧ e.cycle = job.device.cycle :=
        fun e member => id ▸ Bench.isOfStage_of_mem_cycled rfl member
      have about : ∀ e ∈ news, e.unit = unit ∧ e.group = g.id ∧ e.cycle = job.device.cycle ∧
          e.action ≠ .run := by
        intro e member
        rcases List.mem_append.mp member with staged | last
        · obtain ⟨⟨unit, -, action, -⟩, group, cycle⟩ := ofStage e staged
          exact ⟨unit, group, cycle, action⟩
        · obtain ⟨-, last⟩ := List.mem_ite_nil_right.mp last
          rw [List.mem_singleton.mp last]
          exact ⟨rfl, rfl, rfl, nofun⟩
      have past : ∀ e ∈ job.trace ++ news, e.cycle ≤ job.device.cycle := by
        intro e member
        rcases List.mem_append.mp member with old | new
        · exact told.past e old
        · exact (about e new).2.2.1.le
      refine ⟨owned, keeps, ⟨unit, _, (getElem?_stepped resident unit).trans (if_pos rfl)⟩, ?_, ?_,
        ?_, ?_, ?_⟩
      · rw [trace, dispatched_append, dispatched_eq_nil fun e member => (about e member).2.2.2,
          List.append_nil, shape.groupCount, ← told.queued]
        rcases job.stepped_cases unit u g with ⟨-, stepped⟩ | ⟨-, stepped⟩ <;> rw [stepped] <;> rfl
      · rw [trace]
        exact pairwise_append_cycle told.ascending told.past fun e new => (about e new).2.2.1
      · rw [trace]
        exact past
      · rw [trace, cycle]
        exact fun other _ e member _ => past e member
      · rw [trace]
        intro group h here
        rw [getElem?_groups_stepped found] at here
        by_cases same : group = g.id
        · subst same
          have story := runs ▸ told.told g.id g found
          have worked := story.worked told.past ofStage
          cases drained : bench.unit.isDrained with
          | true =>
              rw [if_pos ⟨rfl, drained⟩] at here
              cases here
              rw [show news = bench.events ++ [completion job.device.cycle unit g.id] from
                congrArg _ (if_pos drained), ← List.append_assoc]
              refine worked.completed fun e member => past e ?_
              exact List.append_assoc .. ▸ List.mem_append_left _ member
          | false =>
              rw [if_neg fun both => ne_true_of_eq_false drained both.2] at here
              cases found.symm.trans here
              rw [show news = bench.events from
                (congrArg _ (if_neg (ne_true_of_eq_false drained))).trans (List.append_nil _), runs]
              exact worked
        · rw [if_neg fun both => same both.1] at here
          refine told.story_worked resident held found runs (fun e new => ?_) here same
          obtain ⟨unit, group, cycle, -⟩ := about e new
          exact ⟨unit, group, cycle⟩

end Work

/-! ## Runs -/

theorem Dispatched.mono {later : Nat} (told : job.Dispatched now) (le : now ≤ later) :
    job.Dispatched later :=
  { told with past := fun e member => (told.past e member).trans le }

/-- A new cycle begins. -/
theorem Dispatched.ticked (told : job.Dispatched (job.device.cycle + 1)) :
    job.ticked.Dispatched job.ticked.device.cycle where
  owned := told.owned.ticked
  keeps := told.keeps
  staffed := told.staffed
  queued := told.queued
  ascending := told.ascending
  past := told.past
  rested _ _ e member _ := told.past e member
  told := told.told

/-- The launch on which the device is at work makes no difference. -/
theorem Dispatched.withActive (told : job.Dispatched now) (active : Option ActiveLaunch) :
    ({ job with device := { job.device with active } } : Job ι μ π).Dispatched now where
  owned := told.owned.congr rfl rfl rfl rfl
  keeps := told.keeps
  staffed := told.staffed
  queued := told.queued
  ascending := told.ascending
  past := told.past
  rested := told.rested
  told := told.told

theorem Dispatched.finished (told : job.Dispatched now) : job.finished.Dispatched now := by
  rw [Job.finished, told.keeps.flush_eq]
  exact told.withActive none

section Runs

variable [InstructionModel ι] [MemoryService μ]

theorem Dispatched.of_sweeps {units : List Nat} (told : job.Dispatched job.device.cycle)
    (sweeps : Sweeps units job after) : after.Dispatched after.device.cycle := by
  induction sweeps with
  | nil => exact told
  | cons works _ ih => exact ih (told.works works)

/-- Whatever becomes of a run, the stories of its groups go on. -/
theorem keeps_dispatched_runWithin (nd : NdRange) (budget : Option Nat) :
    Attempt.Keeps (fun job : Job ι μ π =>
      job.Dispatched (job.device.cycle + 1) ∧ job.launch.SameShape nd) (runWithin budget) := by
  refine Attempt.Keeps.bind ?_ fun _ => Attempt.keeps_get.bind fun _ => ?_
  · rintro job ⟨told, shape⟩
    rcases job.begin_cases with ⟨e, refused⟩ | ⟨goes_on, -⟩ | ⟨begins, -⟩
    · rw [refused]
      exact ⟨told, shape⟩
    · rw [goes_on]
      exact ⟨told, shape⟩
    · rw [begins]
      exact ⟨told.withActive _, shape⟩
  rw [drive_eq_driveWith]
  refine keeps_driveWith ?_ ?_ ?_ ?_ _ _
  · rintro job ⟨told, shape⟩
    obtain ⟨placed, done, path, -⟩ := told.owned.place
    obtain ⟨-, same, -⟩ := told.owned.of_hands path
    rw [done]
    exact ⟨told.of_hands path, same.shape.trans shape⟩
  · rintro job ⟨told, shape⟩
    obtain ⟨next, sweeps, advanced⟩ := told.owned.advance
    obtain ⟨-, same, -⟩ := told.owned.of_sweeps sweeps
    rw [← advance_eq_advanceWith, advanced]
    exact ⟨(told.ticked.of_sweeps sweeps).mono (Nat.le_succ _), same.shape.trans shape⟩
  · rintro job ⟨told, shape⟩
    exact ⟨told.finished, shape⟩
  · rintro job ⟨told, shape⟩
    rw [suspend_outcome, flushed, told.keeps.flush_eq]
    exact ⟨told, shape⟩

theorem Dispatched.afterRuns {nd : NdRange} (told : job.Dispatched (job.device.cycle + 1))
    (shape : job.launch.SameShape nd) (budgets : List (Option Nat)) :
    (job.afterRuns budgets).Dispatched ((job.afterRuns budgets).device.cycle + 1) ∧
      (job.afterRuns budgets).launch.SameShape nd :=
  keeps_afterRuns (keeps_dispatched_runWithin nd) ⟨told, shape⟩ budgets

end Runs

/-- Nothing is told before the first run. -/
theorem Dispatched.fresh {id : Nat} {config : DeviceConfig} {isa : ι} {memory : μ} {placement : π}
    {device : Device ι μ π} (built : Device.build id config isa memory placement = .ok device)
    (small : config.wavefrontSize < countBound) (reliable : Placement.Reliable placement)
    {launch number : Nat} {kernelName : String} {globalSize localSize : Dim3}
    {wavefrontSize : Nat} {nd : NdRange}
    (made : NdRange.create launch number kernelName globalSize localSize wavefrontSize = .ok nd)
    (order : StageOrder) : (Job.fresh device order .keepAll nd).Dispatched now := by
  have owned := Owned.fresh built small reliable made order .keepAll
  have units := Device.getElem?_of_build built order
  obtain ⟨valid, -⟩ := Device.build_eq_ok built
  obtain ⟨positive, -⟩ := DeviceConfig.validate_eq_ok valid
  have empty : (Job.fresh device order .keepAll nd).trace = [] := rfl
  refine ⟨owned, ⟨_, rfl⟩, ⟨0, _, (units 0 _).mpr ⟨positive, rfl⟩⟩, ?_, ?_, ?_, ?_,
    fun group g found => ?_⟩
  · obtain ⟨-, -, itemCount, groupSize, -, -, rfl⟩ := NdRange.create_eq_ok made
    rw [empty]
    simp [Job.fresh, dispatched, NdRange.cut, NdRange.groupCount]
  · rw [empty]
    exact .nil
  · rw [empty]
    exact fun _ member => absurd member List.not_mem_nil
  · rw [empty]
    exact fun _ _ _ member => absurd member List.not_mem_nil
  · obtain ⟨-, -, itemCount, groupSize, -, -, rfl⟩ := NdRange.create_eq_ok made
    obtain ⟨-, rfl⟩ := NdRange.getElem?_groups_cut found
    exact .pending (congrArg _ empty)

/-! ## Every group -/

/-- When a run is over every group is done. -/
theorem Dispatched.done {μ : Type} {job : Job SyntheticProgram μ π} (told : job.Dispatched now)
    (quiet : Quiet job) {group : Nat} (inside : group < job.launch.groupCount) :
    ∃ (g : WorkGroup) (unit : Nat), job.launch.groups[group]? = some g ∧ g.phase = .done unit ∧
      Story job.trace group (.done unit) := by
  obtain ⟨unit, u, resident⟩ := told.staffed
  obtain ⟨g, found⟩ : ∃ g, job.launch.groups[group]? = some g :=
    ⟨_, Array.getElem?_eq_getElem inside⟩
  obtain ⟨runner, phase⟩ := quiet.exists_done told.owned resident found
  exact ⟨g, runner, found, phase, phase ▸ told.told group g found⟩

/-- The time that a group spends on a unit. -/
structure Stay where
  unit : Nat
  /-- The cycle in which the group is dispatched. -/
  start : Nat
  /-- The cycle in which it is done. -/
  stop : Nat

/-- The trace tells of the group that it has come to the unit, what has been done there, that it is
done, and nothing else; and of the unit, that it has done nothing for others in that time. -/
structure Stay.Tells (stay : Stay) (trace : List TraceEvent) (group : Nat)
    (stages : List TraceEvent) : Prop where
  told : ofGroup group trace = TraceEvent.dispatch stay.start stay.unit group ::
    (stages ++ [completion stay.stop stay.unit group])
  ordered : stay.start ≤ stay.stop
  staged : ∀ e ∈ stages, e.IsOfStage stay.unit ∧ stay.start ≤ e.cycle ∧ e.cycle ≤ stay.stop
  alone : ∀ e ∈ trace, e.unit = stay.unit → e.group ≠ group →
    e.cycle < stay.start ∨ stay.stop < e.cycle

theorem Stay.Tells.dispatch_mem {stay : Stay} {trace stages : List TraceEvent} {group : Nat}
    (tells : stay.Tells trace group stages) :
    TraceEvent.dispatch stay.start stay.unit group ∈ trace := by
  have first : TraceEvent.dispatch stay.start stay.unit group ∈ ofGroup group trace := by
    rw [tells.told]
    exact List.mem_cons_self ..
  exact mem_of_mem_ofGroup first

/-- Two groups are not on one unit at the same time. -/
theorem Stay.Tells.apart {a b : Stay} {trace stages stages' : List TraceEvent} {group other : Nat}
    (tells : a.Tells trace group stages) (tells' : b.Tells trace other stages')
    (differs : group ≠ other) (same : a.unit = b.unit) : a.stop < b.start ∨ b.stop < a.start := by
  have later : a.start < b.start ∨ b.stop < a.start :=
    tells'.alone _ tells.dispatch_mem same differs
  have earlier : b.start < a.start ∨ a.stop < b.start :=
    tells.alone _ tells'.dispatch_mem same.symm differs.symm
  omega

/-- In every run of a program that a new device completes on a new launch, whether it was
interrupted or not, groups are dispatched in the order of their numbers, once each. A group stays on
one unit from its dispatch to its completion, every stage that works on it does so there and in that
time, and the unit is the one that the launch remembers. Two groups are never on one unit at the same
time, and events are recorded in the order of their cycles. -/
theorem groups_never_migrate {μ : Type} [MemoryService μ] {id : Nat} {config : DeviceConfig}
    {p : SyntheticProgram} {memory : μ} {placement : π} {device : Device SyntheticProgram μ π}
    (built : Device.build id config p memory placement = .ok device)
    (small : config.wavefrontSize < countBound) (reliable : Placement.Reliable placement)
    {launch number : Nat} {kernelName : String} {globalSize localSize : Dim3}
    {wavefrontSize : Nat} {nd : NdRange}
    (made : NdRange.create launch number kernelName globalSize localSize wavefrontSize = .ok nd)
    (order : StageOrder) (history : List (Option Nat)) {stats : RunStats}
    {after : Job SyntheticProgram μ π}
    (completed : let job := (Job.fresh device order .keepAll nd).afterRuns history
      run.outcome job = (.ok stats, after) ∨
        ∃ budget, (runFor budget).outcome job = (.ok (.completed stats), after)) :
    dispatched after.trace = List.range nd.groupCount ∧
    after.trace.Pairwise (·.cycle ≤ ·.cycle) ∧
    ∃ stay : Nat → Stay,
      (∀ group < nd.groupCount, ∃ (g : WorkGroup) (stages : List TraceEvent),
        after.launch.groups[group]? = some g ∧ g.unit? = some (stay group).unit ∧
        (stay group).Tells after.trace group stages) ∧
      ∀ group < nd.groupCount, ∀ other < nd.groupCount, group ≠ other →
        (stay group).unit = (stay other).unit →
          (stay group).stop < (stay other).start ∨ (stay other).stop < (stay group).start := by
  obtain ⟨begun, same⟩ :=
    (Dispatched.fresh built small reliable made order).afterRuns (.refl nd) history
  have resumable := (Resumable.fresh built small reliable made order .keepAll).afterRuns history
  have completed : run.outcome ((Job.fresh device order .keepAll nd).afterRuns history) =
      (.ok stats, after) := by
    rcases completed with completed | ⟨budget, completed⟩
    · exact completed
    · exact ((resumable.completed_iff budget stats after).mp completed).1
  obtain ⟨told, shape⟩ :
      after.Dispatched (after.device.cycle + 1) ∧ after.launch.SameShape nd := by
    have keeps := keeps_dispatched_runWithin nd none _ ⟨begun, same⟩
    rw [run_outcome] at completed
    have ended : ((runWithin none).outcome _).2 = after := congrArg Prod.snd completed
    exact ended ▸ keeps
  have quiet : Quiet after := resumable.owned.quiet_of_run completed
  have each : ∀ group, ∃ stay : Stay, group < nd.groupCount →
      ∃ (g : WorkGroup) (stages : List TraceEvent), after.launch.groups[group]? = some g ∧
        g.unit? = some stay.unit ∧ stay.Tells after.trace group stages := by
    intro group
    by_cases inside : group < nd.groupCount
    · obtain ⟨g, unit, found, phase, story⟩ := told.done quiet (shape.groupCount ▸ inside)
      cases story with
      | @done _ start stop stages tells ordered staged alone =>
          refine ⟨⟨unit, start, stop⟩, fun _ => ⟨g, stages, found, ?_,
            ⟨tells, ordered, staged, alone⟩⟩⟩
          rw [WorkGroup.unit?, phase]
          rfl
    · exact ⟨⟨0, 0, 0⟩, fun inside' => absurd inside' inside⟩
  obtain ⟨stay, stays⟩ := Classical.skolem.mp each
  refine ⟨?_, told.ascending, stay, stays, fun group inside other inside' differs same => ?_⟩
  · obtain ⟨unit, u, resident⟩ := told.staffed
    rw [← shape.groupCount, ← told.queued, quiet.pending_eq_nil told.owned resident,
      List.append_nil]
  · obtain ⟨-, stages, -, -, tells⟩ := stays group inside
    obtain ⟨-, stages', -, -, tells'⟩ := stays other inside'
    exact tells.apart tells' differs same

/-- On a device of two units and in a run that was interrupted after five cycles: three groups are
dispatched in the order of their numbers, and two of them that come to the same unit do so one after
the other. -/
theorem groups_never_migrate_on_two_units :
    ∃ (device : Device SyntheticProgram FixedLatency Placer) (nd : NdRange),
      Device.build 0 { computeUnits := 2, streamCores := 2, wavefrontSize := 4 }
        (.ofKinds [.load, .alu]) { latency := 3 } PlacementPolicy.roundRobin.build = .ok device ∧
      NdRange.create 1 0 "kernel" ⟨24, 1, 1⟩ ⟨8, 1, 1⟩ 4 = .ok nd ∧
      ∃ stats after, run.outcome ((Job.fresh device .reverse .keepAll nd).afterRuns [some 5]) =
          (.ok stats, after) ∧
        dispatched after.trace = [0, 1, 2] ∧
        ∃ (first last : Stay) (stages stages' : List TraceEvent),
          first.Tells after.trace 0 stages ∧ last.Tells after.trace 2 stages' ∧
          (first.unit = last.unit → first.stop < last.start ∨ last.stop < first.start) := by
  have built : Device.build 0 { computeUnits := 2, streamCores := 2, wavefrontSize := 4 }
      (SyntheticProgram.ofKinds [.load, .alu]) ({ latency := 3 } : FixedLatency)
      PlacementPolicy.roundRobin.build = .ok _ := rfl
  have made : NdRange.create 1 0 "kernel" ⟨24, 1, 1⟩ ⟨8, 1, 1⟩ 4 = .ok _ := rfl
  refine ⟨_, _, built, made,
    Attempt.exists_of_isOk (by decide +kernel) fun stats after completed => ?_⟩
  obtain ⟨queued, -, stay, stays, apart⟩ :=
    groups_never_migrate built (by decide) (PlacementPolicy.reliable_build _) made .reverse
      [some 5] (Or.inl completed)
  obtain ⟨-, stages, -, -, first⟩ := stays 0 (by decide)
  obtain ⟨-, stages', -, -, last⟩ := stays 2 (by decide)
  exact ⟨queued, stay 0, stay 2, stages, stages', first, last,
    apart 0 (by decide) 2 (by decide) (by decide)⟩

end Job

end Accelerator
