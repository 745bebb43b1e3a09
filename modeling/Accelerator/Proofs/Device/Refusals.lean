import Accelerator.Proofs.Device.Isolation

/-!
# Refused calls

A run is refused before anything is changed: before the launch is noted as the one the device is at
work on, and before the first cycle. So is a step of a unit that is not busy. A driver may therefore
put calls that are refused between those of a run, as many as it likes and wherever it likes: the run
answers as it would have without them, and leaves the device, the launch and everything else as it
would have left them (`refused_calls_leave_no_trace`).

Whether a call is refused depends on the state in which it is made. So a script of calls is followed
from state to state, and what is said of each call is said of the state that it finds.
-/

namespace Accelerator

/-! ## Calls and their answers -/

namespace Job

variable {ι μ π : Type} [InstructionModel ι] [MemoryService μ] [Placement π] {job after : Job ι μ π}

/-- What a call answers. -/
inductive Reply where
  | stats (stats : RunStats)
  | outcome (outcome : Outcome)
  | dispatched (groups : Nat)
  | stepped
deriving DecidableEq

/-- Make a call, and keep its answer. -/
def Call.ask : Call → Attempt (Job ι μ π) Reply
  | run => do
    return .stats (← Job.run)
  | runFor cycles => do
    return .outcome (← Job.runFor cycles)
  | dispatch => do
    return .dispatched (← Job.dispatch)
  | stepUnit unit => do
    Job.stepUnit unit
    return .stepped

/-- A run with a budget of cycles, or without one. -/
def Call.within : Option Nat → Call
  | none => run
  | some cycles => runFor cycles

/-- A call leads to the same, whether its answer is kept or left aside. -/
theorem Call.perform_outcome (call : Call) (job : Job ι μ π) :
    (call.perform.outcome job).2 = (call.ask.outcome job).2 := by
  cases call with
  | stepUnit unit =>
      simp only [perform, ask, Attempt.outcome_bind]
      rcases (Job.stepUnit unit).outcome job with ⟨e | _, after⟩ <;> rfl
  | run =>
      simp only [perform, ask, Attempt.outcome_bind]
      rcases Job.run.outcome job with ⟨e | _, after⟩ <;> rfl
  | runFor cycles =>
      simp only [perform, ask, Attempt.outcome_bind]
      rcases (Job.runFor cycles).outcome job with ⟨e | _, after⟩ <;> rfl
  | dispatch =>
      simp only [perform, ask, Attempt.outcome_bind]
      rcases Job.dispatch.outcome job with ⟨e | _, after⟩ <;> rfl

/-- A run that cannot begin is refused. -/
theorem Call.ask_of_refused {e : Error} (refused : begin.outcome job = (.error e, job))
    (budget : Option Nat) : (Call.within budget).ask.outcome job = (.error e, job) := by
  have ran := runWithin_outcome_of_error refused budget
  cases budget with
  | none =>
      have whole : Job.run.outcome job = (.error e, job) := by
        rw [run_outcome, ran]
        rfl
      exact Attempt.outcome_bind_of_error whole
  | some cycles => exact Attempt.outcome_bind_of_error ran

omit [InstructionModel ι] [MemoryService μ] in
/-- A unit that is idle is not busy. -/
theorem Owned.busy_eq_false_of_idle (owned : job.Owned) {unit : Nat}
    (idle : job.device.idle.contains unit = true) :
    unit < job.device.cluster.units.size ∧ job.device.busy.contains unit = false := by
  obtain ⟨u, found, free⟩ := (owned.idle unit).mp idle
  refine ⟨(Array.getElem?_eq_some_iff.mp found).1, ?_⟩
  rw [(owned.contains_eq found).1, ComputeUnit.isBusy, free]
  rfl

/-- A run that is over leaves the device free, and one that was interrupted leaves it at work on its
launch. -/
theorem Owned.active_of_runFor (owned : job.Owned) {cycles : Nat} {answer : Outcome}
    (ended : (Job.runFor cycles).outcome job = (.ok answer, after)) :
    (∃ stats, answer = .completed stats ∧ after.device.active = none) ∨
      ∃ stats active, answer = .suspended stats ∧ after.device.active = some active ∧
        active.launch = job.launch.launch := by
  have drives : ∀ {begun : Job ι μ π} {active : ActiveLaunch}, begun.Owned →
      begun.device.active = some active → active.launch = job.launch.launch → ∀ room : Nat,
      (drive room (some cycles)).outcome begun = (.ok answer, after) →
      (∃ stats, answer = .completed stats ∧ after.device.active = none) ∨
        ∃ stats active, answer = .suspended stats ∧ after.device.active = some active ∧
          active.launch = job.launch.launch := by
    intro begun active owned under_way same room ended
    cases owned.course cycles room with
    | ended _ _ _ short _ =>
        rw [short, finish_outcome] at ended
        cases ended
        exact .inl ⟨_, rfl, rfl⟩
    | overflow _ short _ =>
        rw [short] at ended
        cases ended
    | pause stands _ _ _ short _ =>
        rw [short, suspend_outcome] at ended
        cases ended
        exact .inr ⟨_, active, rfl, stands.sameRun.active.trans under_way, same⟩
  rw [runFor] at ended
  rcases job.begin_cases with ⟨e, refused⟩ | ⟨goes_on, active, here, same⟩ | ⟨begins, -, -⟩
  · rw [runWithin_outcome_of_error refused] at ended
    cases ended
  · rw [runWithin_outcome goes_on] at ended
    exact drives owned here same _ ended
  · rw [runWithin_outcome begins] at ended
    have admitted : job.admitted.Owned := owned.congr rfl rfl rfl rfl
    exact drives admitted rfl rfl _ ended

end Job

namespace Host

variable {ι μ π : Type} [InstructionModel ι] [MemoryService μ] [Placement π]

/-- What a call with the launch at a position answers, if there is such a launch. -/
def reply (h : Host ι μ π) (i : Nat) (call : Job.Call) : Option (Except Error Job.Reply) :=
  h.launches[i]?.map fun nd => (call.ask.outcome (h.job nd)).1

/-- The device has a reason to refuse a call with the launch at a position. -/
inductive Refuses (h : Host ι μ π) : (j : Nat) → Job.Call → Error → Prop
  /-- The device is at work on another launch. -/
  | inFlight {j : Nat} {nd : NdRange} {active : ActiveLaunch} (budget : Option Nat)
    (found : h.launches[j]? = some nd) (under_way : h.device.active = some active)
    (other : active.launch ≠ nd.launch) :
    Refuses h j (.within budget) (.launchInFlight active.id nd.id)
  | tooLarge {j : Nat} {nd : NdRange} (budget : Option Nat) (found : h.launches[j]? = some nd)
    (free : h.device.active = none) (large : h.device.config.maxGroupSize < nd.groupSize) :
    Refuses h j (.within budget) (.groupTooLarge nd.groupSize h.device.config.maxGroupSize)
  | otherSize {j : Nat} {nd : NdRange} (budget : Option Nat) (found : h.launches[j]? = some nd)
    (free : h.device.active = none) (small : nd.groupSize ≤ h.device.config.maxGroupSize)
    (differs : nd.wavefrontSize ≠ h.device.config.wavefrontSize) :
    Refuses h j (.within budget) (.invalidLaunch
      ("wavefront size " ++ toString nd.wavefrontSize
        ++ " does not match device wavefront size " ++ toString h.device.config.wavefrontSize))
  | unknownUnit {j unit : Nat} {nd : NdRange} (found : h.launches[j]? = some nd)
    (outside : h.device.cluster.units.size ≤ unit) :
    Refuses h j (.stepUnit unit) (.unknownUnit unit)
  | idleUnit {j unit : Nat} {nd : NdRange} (found : h.launches[j]? = some nd)
    (idle : h.device.idle.contains unit = true) : Refuses h j (.stepUnit unit) (.idleUnit unit)

variable {h : Host ι μ π} {i j : Nat} {nd : NdRange} {call : Job.Call} {e : Error}

omit [InstructionModel ι] [MemoryService μ] in
/-- The units and the lists of a device agree, whichever launch it is at work on. -/
theorem Apart.exists_owned (apart : h.Apart) (found : h.launches[j]? = some nd) :
    ∃ owner, (h.job owner).Owned := by
  cases apart with
  | free _ _ _ owned => exact ⟨nd, owned j nd found⟩
  | works _ _ owned _ => exact ⟨_, owned⟩

/-- A call that is refused with the job as it was leaves everything as it was. -/
theorem unmoved_of_refused (found : h.launches[j]? = some nd)
    (refused : call.ask.outcome (h.job nd) = (.error e, h.job nd)) :
    h.reply j call = some (.error e) ∧ h.perform j call = h := by
  have same : h.launches.set j nd = h.launches := by
    obtain ⟨inside, value⟩ := List.getElem?_eq_some_iff.mp found
    rw [← value]
    exact List.set_getElem_self inside
  rw [perform_eq found, Job.Call.perform_outcome, refused]
  refine ⟨?_, congrArg (Host.mk h.device) same⟩
  rw [reply, found, Option.map_some, refused]

/-- A call that the device has a reason to refuse is refused for that reason, and changes nothing. -/
theorem Refuses.unmoved (refuses : h.Refuses j call e) (apart : h.Apart) :
    h.reply j call = some (.error e) ∧ h.perform j call = h := by
  cases refuses with
  | inFlight budget found under_way other =>
      have refused : Job.begin.outcome (h.job _) = (.error _, h.job _) :=
        Job.begin_of_in_flight under_way other
      exact unmoved_of_refused found (Job.Call.ask_of_refused refused budget)
  | tooLarge budget found free large =>
      exact unmoved_of_refused found (Job.Call.ask_of_refused (Job.begin_of_large free large) budget)
  | otherSize budget found free small differs =>
      exact unmoved_of_refused found
        (Job.Call.ask_of_refused (Job.begin_of_size_ne free small differs) budget)
  | @unknownUnit unit nd found outside =>
      have refused : (Job.stepUnit unit).outcome (h.job nd) =
          (.error (.unknownUnit unit), h.job nd) := by
        simp [Job.stepUnit, Attempt.outcome_bind, job, outside]
      exact unmoved_of_refused found (Attempt.outcome_bind_of_error refused)
  | @idleUnit unit nd found idle =>
      obtain ⟨owner, owned⟩ := apart.exists_owned found
      obtain ⟨inside, rests⟩ := owned.busy_eq_false_of_idle idle
      have outside : ¬ (h.job nd).device.cluster.units.size ≤ unit := Nat.not_le.mpr inside
      have refused : (Job.stepUnit unit).outcome (h.job nd) = (.error (.idleUnit unit), h.job nd) := by
        have rests : (h.job nd).device.busy.contains unit = false := rests
        rw [Job.stepUnit_outcome_of_idle rests, if_neg outside]
      exact unmoved_of_refused found (Attempt.outcome_bind_of_error refused)

/-! ## Scripts -/

/-- An entry of a script, which is about one launch: a run of that launch, with a budget of cycles or
without one, or a call of any kind with any launch. -/
inductive Entry where
  | run (budget : Option Nat)
  | inserted (j : Nat) (call : Job.Call)

def Entry.isRun : Entry → Bool
  | run _ => true
  | inserted _ _ => false

/-- Make the calls of a script about a launch one after the other, and keep the answers to the runs of
that launch. -/
def play (i : Nat) : Host ι μ π → List Entry → List (Option (Except Error Job.Reply)) × Host ι μ π
  | h, [] => ([], h)
  | h, .run budget :: rest =>
    let (replies, after) := play i (h.perform i (.within budget)) rest
    (h.reply i (.within budget) :: replies, after)
  | h, .inserted j call :: rest => play i (h.perform j call) rest

/-- All calls of a script other than the runs that it is about are refused, each in the state in which
it is made. -/
def OnlyRefused (i : Nat) : Host ι μ π → List Entry → Prop
  | _, [] => True
  | h, .run budget :: rest => OnlyRefused i (h.perform i (.within budget)) rest
  | h, .inserted j call :: rest =>
    (∃ e, h.Refuses j call e) ∧ OnlyRefused i (h.perform j call) rest

/-- A run keeps launches apart, and changes no launch but its own. -/
theorem Apart.run (apart : h.Apart) (distinct : h.Distinct) (i : Nat) (budget : Option Nat) :
    (h.perform i (.within budget)).Apart ∧ (h.perform i (.within budget)).Distinct ∧
      ∀ j, j ≠ i → (h.perform i (.within budget)).launches[j]? = h.launches[j]? := by
  have calls : h.Calls (h.perform i (.within budget)) :=
    .call i _ fun isDispatch => by cases budget <;> cases isDispatch
  obtain ⟨apart', distinct'⟩ := apart_of_calls (.single calls) distinct apart
  refine ⟨apart', distinct', fun j differs => ?_⟩
  rcases found : h.launches[i]? with _ | nd
  · rw [perform, found]
  · rw [perform_eq found]
    exact List.getElem?_set_ne (Ne.symm differs)

/-- What is refused can be left out of a script. -/
theorem play_of_onlyRefused {script : List Entry} (apart : h.Apart) (distinct : h.Distinct)
    (refused : h.OnlyRefused i script) :
    h.play i script = h.play i (script.filter Entry.isRun) ∧
      ∀ j, j ≠ i → (h.play i script).2.launches[j]? = h.launches[j]? := by
  induction script generalizing h with
  | nil => exact ⟨rfl, fun j _ => rfl⟩
  | cons entry rest ih =>
      cases entry with
      | run budget =>
          obtain ⟨apart', distinct', others⟩ := apart.run distinct i budget
          obtain ⟨same, elsewhere⟩ := ih apart' distinct' refused
          refine ⟨?_, fun j differs => (elsewhere j differs).trans (others j differs)⟩
          rw [List.filter_cons_of_pos rfl, play, play, same]
      | inserted j call =>
          obtain ⟨⟨e, refuses⟩, later⟩ := refused
          have unmoved := (refuses.unmoved apart).2
          rw [unmoved] at later
          rw [List.filter_cons_of_neg Bool.false_ne_true, play, unmoved]
          exact ih apart distinct later

/-! ## When calls are refused -/

/-- A run that has an answer leaves the device at work on its launch if it was interrupted, and free if
it is over. -/
theorem Apart.active_of_runFor (apart : h.Apart) (distinct : h.Distinct)
    (found : h.launches[i]? = some nd) {cycles : Nat} {answer : Outcome}
    (answered : h.reply i (.runFor cycles) = some (.ok (.outcome answer))) :
    (h.perform i (.runFor cycles)).device.active =
      if answer.isCompleted then none else some { launch := nd.launch, id := nd.id } := by
  have ended : ∃ after, (Job.runFor cycles).outcome (h.job nd) = (.ok answer, after) := by
    rw [reply, found, Option.map_some, Job.Call.ask, Attempt.outcome_bind] at answered
    rcases done : (Job.runFor cycles).outcome (h.job nd) with ⟨e | given, after⟩
    · rw [done] at answered
      cases answered
    · rw [done] at answered
      cases answered
      exact ⟨after, rfl⟩
  obtain ⟨after, ended⟩ := ended
  have serves : (h.job nd).Serves nd := by
    cases apart with
    | free inactive rests _ owned => exact ⟨owned i nd found, .refl nd, .inr ⟨inactive, rests⟩⟩
    | @works k owner here active owned _ =>
        by_cases same : i = k
        · subst same
          cases found.symm.trans here
          exact ⟨owned, .refl nd, .inl active⟩
        · have under_way : (h.job nd).device.active = some _ := active
          have refused := Job.runWithin_of_other under_way
            (fun equal => same (distinct.eq here found equal).symm) (some cycles)
          cases refused.symm.trans ended
  have served := Job.keeps_serves_runWithin nd (some cycles) (h.job nd) serves
  rw [← Job.runFor, ended] at served
  have left : (h.perform i (.runFor cycles)).device = after.device := by
    rw [perform_eq found, Job.Call.perform, Attempt.outcome_bind_of_ok ended]
    rfl
  rw [left]
  rcases serves.owned.active_of_runFor ended with ⟨stats, rfl, free⟩ | ⟨stats, active, rfl, here, -⟩
  · exact free
  · rcases served.active with active | ⟨free, -⟩
    · exact active
    · cases free.symm.trans here

/-! ## Every script -/

/-- A new device and new launches of different numbers, after any calls with any of them, when groups
are dispatched by runs, or for the launch that is under way. A call that the device has a reason to
refuse is refused for that reason, and neither the device nor any launch changes. In a script of runs
of one launch, refused calls with whatever launch can be put in or left out: the answers to the runs
are the same, and so is everything that they leave; the other launches stay as they are. While a run is
interrupted there is a reason to refuse every other launch, and when it is over the device is free. -/
theorem refused_calls_leave_no_trace {id : Nat} {config : DeviceConfig} {isa : ι} {memory : μ}
    {placement : π} {device : Device ι μ π}
    (built : Device.build id config isa memory placement = .ok device)
    (small : config.wavefrontSize < countBound) (reliable : Placement.Reliable placement)
    (order : StageOrder) (sink : Sink) {launches : List NdRange}
    (made : ∀ nd ∈ launches, ∃ launch number kernelName globalSize localSize wavefrontSize,
      NdRange.create launch number kernelName globalSize localSize wavefrontSize = .ok nd)
    (distinct : (launches.map (·.launch)).Nodup)
    (path : Relation.ReflTransGen Calls
      { device := (device.withOrder order).withSink sink, launches } h) :
    (∀ (j : Nat) (call : Job.Call) (e : Error), h.Refuses j call e →
      h.reply j call = some (.error e) ∧ h.perform j call = h) ∧
    (∀ (i : Nat) (script : List Entry), h.OnlyRefused i script →
      h.play i script = h.play i (script.filter Entry.isRun) ∧
        ∀ j, j ≠ i → (h.play i script).2.launches[j]? = h.launches[j]?) ∧
    ∀ (i cycles : Nat) (nd : NdRange) (answer : Outcome), h.launches[i]? = some nd →
      h.reply i (.runFor cycles) = some (.ok (.outcome answer)) →
      let after := h.perform i (.runFor cycles)
      (answer.isCompleted = true → after.device.active = none) ∧
      (answer.isCompleted = false → ∀ (j : Nat) (other : NdRange) (budget : Option Nat), j ≠ i →
        after.launches[j]? = some other →
          after.Refuses j (.within budget) (.launchInFlight nd.id other.id)) := by
  have new := apart_of_new built small reliable order sink made
  obtain ⟨apart, distinct'⟩ := apart_of_calls path distinct new
  refine ⟨fun j call e refuses => refuses.unmoved apart,
    fun i script refused => play_of_onlyRefused apart distinct' refused,
    fun i cycles nd answer found answered => ?_⟩
  intro after
  have active : after.device.active = _ := apart.active_of_runFor distinct' found answered
  refine ⟨fun completed => ?_, fun interrupted j other budget differs here => ?_⟩
  · rw [active, if_pos completed]
  · rw [if_neg (ne_true_of_eq_false interrupted)] at active
    have unmoved : after.launches[j]? = h.launches[j]? :=
      (apart.run distinct' i (some cycles)).2.2 j differs
    have elsewhere : nd.launch ≠ other.launch := fun same =>
      differs (distinct'.eq found (unmoved.symm.trans here) same).symm
    exact .inFlight budget here active elsewhere

/-- A launch of one group on a device of two units, run with a budget of one cycle and then to its end.
In between come launches that are too large or of the wrong kind, another launch, and units that do not
work. -/
theorem refused_calls_leave_no_trace_on_two_units :
    ∃ (device : Device SyntheticProgram FixedLatency Placer) (first second large odd : NdRange),
      Device.build 0 { computeUnits := 2, streamCores := 2, wavefrontSize := 4, maxGroupSize := 8 }
        (.ofKinds [.load, .alu]) { latency := 3 } PlacementPolicy.roundRobin.build = .ok device ∧
      NdRange.create 1 0 "first" ⟨8, 1, 1⟩ ⟨8, 1, 1⟩ 4 = .ok first ∧
      NdRange.create 2 0 "second" ⟨8, 1, 1⟩ ⟨8, 1, 1⟩ 4 = .ok second ∧
      NdRange.create 3 0 "large" ⟨16, 1, 1⟩ ⟨16, 1, 1⟩ 4 = .ok large ∧
      NdRange.create 4 0 "odd" ⟨8, 1, 1⟩ ⟨8, 1, 1⟩ 2 = .ok odd ∧
      let start : Host SyntheticProgram FixedLatency Placer :=
        { device := (device.withOrder .reverse).withSink .keepAll
          launches := [first, second, large, odd] }
      let script : List Entry := [.inserted 2 .run, .inserted 3 (.runFor 4), .run (some 1),
        .inserted 1 .run, .inserted 0 (.stepUnit 1), .inserted 2 (.stepUnit 7), .run none]
      start.OnlyRefused 0 script ∧
        start.play 0 script = start.play 0 [.run (some 1), .run none] := by
  have built : Device.build 0
      { computeUnits := 2, streamCores := 2, wavefrontSize := 4, maxGroupSize := 8 }
      (SyntheticProgram.ofKinds [.load, .alu]) ({ latency := 3 } : FixedLatency)
      PlacementPolicy.roundRobin.build = .ok _ := rfl
  have first : NdRange.create 1 0 "first" ⟨8, 1, 1⟩ ⟨8, 1, 1⟩ 4 = .ok _ := rfl
  have second : NdRange.create 2 0 "second" ⟨8, 1, 1⟩ ⟨8, 1, 1⟩ 4 = .ok _ := rfl
  have large : NdRange.create 3 0 "large" ⟨16, 1, 1⟩ ⟨16, 1, 1⟩ 4 = .ok _ := rfl
  have odd : NdRange.create 4 0 "odd" ⟨8, 1, 1⟩ ⟨8, 1, 1⟩ 2 = .ok _ := rfl
  refine ⟨_, _, _, _, _, built, first, second, large, odd, ?_⟩
  intro start script
  have refused : start.OnlyRefused 0 script := by
    refine ⟨⟨_, .tooLarge none rfl rfl (by decide)⟩,
      ⟨_, .otherSize (some 4) rfl (by decide +kernel) (by decide +kernel) (by decide +kernel)⟩,
      ⟨_, .inFlight none rfl (show _ = some ⟨1, 0⟩ by decide +kernel) (by decide +kernel)⟩,
      ⟨_, .idleUnit rfl (by decide +kernel)⟩, ⟨_, .unknownUnit rfl (by decide +kernel)⟩, trivial⟩
  refine ⟨refused, ?_⟩
  refine ((refused_calls_leave_no_trace built (by decide) (PlacementPolicy.reliable_build _) .reverse
    .keepAll ?_ (by decide) .refl).2.1 0 script refused).1
  intro nd member
  simp only [List.mem_cons, List.not_mem_nil, or_false] at member
  rcases member with rfl | rfl | rfl | rfl
  · exact ⟨_, _, _, _, _, _, first⟩
  · exact ⟨_, _, _, _, _, _, second⟩
  · exact ⟨_, _, _, _, _, _, large⟩
  · exact ⟨_, _, _, _, _, _, odd⟩

end Host

end Accelerator
