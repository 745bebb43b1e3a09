import Accelerator.Proofs.Launch
import Accelerator.Proofs.Session
import Mathlib.Logic.Relation

/-!
# Calls to a launch

A launch keeps the queue, the phases of its groups and the number of those that are done apart, and
none of the calls that change one of them looks at the others. Whoever calls, and in whatever
order, they stay right (`books_are_kept`): groups are taken in the order of their numbers, each
once; a group waits, runs and is done in this order, and keeps the unit on which it was started;
and as many groups are counted as are done.

A group can be started without having been taken, and the other way round. What a call does to the
phase of a group is `Call.move`, and nothing else ever happens to a group.
-/

namespace Accelerator

/-- The way of every group: it waits, then it runs, then it is done. -/
inductive Status.Next : Status → Status → Prop where
  | start : Next .pending .running
  | finish : Next .running .done

theorem Phase.unit?_eq_none_iff (phase : Phase) : phase.unit? = none ↔ phase.status = .pending := by
  cases phase <;> simp [unit?, status]

/-- What may have become of a group: it has gone on its way, and keeps the unit it has been given. -/
structure WorkGroup.Leads (g h : WorkGroup) : Prop where
  way : Relation.ReflTransGen Status.Next g.status h.status
  unit : ∀ unit, g.unit? = some unit → h.unit? = some unit

theorem WorkGroup.Leads.trans {g h k : WorkGroup} (first : g.Leads h) (second : h.Leads k) :
    g.Leads k where
  way := first.way.trans second.way
  unit unit settled := second.unit unit (first.unit unit settled)

namespace NdRange

/-! ## Calls -/

/-- The calls that may change a launch. -/
inductive Call where
  | take
  | start (group unit : Nat)
  | finish (group : Nat)
deriving DecidableEq

inductive Answer where
  | taken (group : Nat)
  | marked
  | refused (error : Error)
deriving DecidableEq

def Answer.isRefusal : Answer → Bool
  | refused _ => true
  | _ => false

def Answer.isTaken : Answer → Bool
  | taken _ => true
  | _ => false

/-- What a call leads to, unless it is refused. -/
def ask (nd : NdRange) : Call → Except Error (Answer × NdRange)
  | .take => do
    let (group, next) ← nd.takeNextPending
    return (.taken group, next)
  | .start group unit => return (.marked, ← nd.markRunning group unit)
  | .finish group => return (.marked, ← nd.markDone group)

/-- What a launch answers to a call, and what the call makes of it. -/
def perform (nd : NdRange) (call : Call) : Answer × NdRange :=
  match nd.ask call with
  | .ok answered => answered
  | .error e => (.refused e, nd)

/-- How many groups have been taken, by the answers. -/
def takes (answers : List Answer) : Nat := answers.countP (·.isTaken)

/-- What a call does to the phase of a group. -/
def Call.move : Call → (group : Nat) → Phase → Phase
  | .start group unit, id, .pending => if id = group then .running unit else .pending
  | .finish group, id, .running unit => if id = group then .done unit else .running unit
  | _, _, phase => phase

theorem Call.move_of_ne {call : Call} {id : Nat} (phase : Phase)
    (other : ∀ unit, call ≠ .start id unit) (other' : call ≠ .finish id) :
    call.move id phase = phase := by
  rcases call with _ | ⟨group, unit⟩ | group <;> rcases phase with _ | on | on <;> try rfl
  case start.pending =>
    have apart : id ≠ group := fun same => other unit (same ▸ rfl)
    simp [move, apart]
  case finish.running =>
    have apart : id ≠ group := fun same => other' (same ▸ rfl)
    simp [move, apart]

/-- A call takes a group one step on its way, if it changes it at all. -/
theorem Call.status_move (call : Call) (id : Nat) (phase : Phase) :
    (call.move id phase).status = phase.status ∨
      Status.Next phase.status (call.move id phase).status := by
  rcases call with _ | ⟨group, unit⟩ | group <;> rcases phase with _ | on | on <;>
    try exact Or.inl rfl
  case start.pending =>
    by_cases same : id = group
    · simpa [move, same, Phase.status] using Status.Next.start
    · simp [move, same]
  case finish.running =>
    by_cases same : id = group
    · simpa [move, same, Phase.status] using Status.Next.finish
    · simp [move, same]

/-- The unit of a group is settled once and for all. -/
theorem Call.unit?_move (call : Call) {id unit : Nat} {phase : Phase}
    (settled : phase.unit? = some unit) : (call.move id phase).unit? = some unit := by
  rcases call with _ | ⟨group, other⟩ | group <;> rcases phase with _ | on | on <;>
    try exact settled
  case start.pending => cases settled
  case finish.running =>
    by_cases same : id = group
    · simpa [move, same, Phase.unit?] using settled
    · simpa [move, same] using settled

/-! ## One call -/

variable {nd origin : NdRange} {group unit taken : Nat}

theorem perform_take (nd : NdRange) :
    nd.perform .take =
      match nd.pending with
      | group :: rest => (.taken group, { nd with pending := rest })
      | [] => (.refused (.nonePending nd.id), nd) := by
  unfold perform ask takeNextPending
  rcases nd.pending with _ | ⟨group, rest⟩ <;> rfl

theorem perform_of_taken {next : NdRange} (taking : nd.takeNextPending = .ok (group, next)) :
    nd.perform .take = (.taken group, next) := by
  simp [perform, ask, taking, bind, Except.bind, pure, Except.pure]

theorem perform_of_waiting {g : WorkGroup} (waits : nd.waitingGroup group = .ok g) (unit : Nat) :
    nd.perform (.start group unit) = (.marked, nd.start g unit) := by
  simp [perform, ask, markRunning, waits, bind, Except.bind, pure, Except.pure]

theorem perform_of_running {g : WorkGroup} (runs : nd.runningGroup group = .ok (g, unit)) :
    nd.perform (.finish group) = (.marked, nd.finish g unit) := by
  simp [perform, ask, markDone, runs, bind, Except.bind, pure, Except.pure]

/-- A waiting group is started, and any other call to start one is refused. -/
theorem perform_start_cases (nd : NdRange) (group unit : Nat) :
    (∃ g, nd.groups[group]? = some g ∧ g.phase = .pending ∧
        nd.perform (.start group unit) = (.marked, nd.start g unit)) ∨
      ((∀ g, nd.groups[group]? = some g → g.phase ≠ .pending) ∧
        ∃ e, nd.perform (.start group unit) = (.refused e, nd)) := by
  rcases waits : nd.waitingGroup group with e | g
  · refine Or.inr ⟨fun g found pending => ?_, e, ?_⟩
    · have accepted := waitingGroup_eq_ok.mpr ⟨found, pending⟩
      rw [waits] at accepted
      cases accepted
    · simp [perform, ask, markRunning, waits, bind, Except.bind]
  · obtain ⟨found, pending⟩ := waitingGroup_eq_ok.mp waits
    exact Or.inl ⟨g, found, pending, perform_of_waiting waits unit⟩

/-- A running group is finished, and any other call to finish one is refused. -/
theorem perform_finish_cases (nd : NdRange) (group : Nat) :
    (∃ g unit, nd.groups[group]? = some g ∧ g.phase = .running unit ∧
        nd.perform (.finish group) = (.marked, nd.finish g unit)) ∨
      ((∀ g unit, nd.groups[group]? = some g → g.phase ≠ .running unit) ∧
        ∃ e, nd.perform (.finish group) = (.refused e, nd)) := by
  rcases runs : nd.runningGroup group with e | ⟨g, unit⟩
  · refine Or.inr ⟨fun g unit found running => ?_, e, ?_⟩
    · have accepted := runningGroup_eq_ok.mpr ⟨found, running⟩
      rw [runs] at accepted
      cases accepted
    · simp [perform, ask, markDone, runs, bind, Except.bind]
  · obtain ⟨found, running⟩ := runningGroup_eq_ok.mp runs
    exact Or.inl ⟨g, unit, found, running, perform_of_running runs⟩

theorem perform_of_isRefusal {call : Call} (refused : (nd.perform call).1.isRefusal = true) :
    (nd.perform call).2 = nd := by
  cases call with
  | take =>
      rw [perform_take] at refused ⊢
      rcases waits : nd.pending with _ | ⟨group, rest⟩
      · rfl
      · rw [waits] at refused
        cases refused
  | start group unit =>
      rcases nd.perform_start_cases group unit with ⟨g, -, -, performed⟩ | ⟨-, e, performed⟩
      · rw [performed] at refused
        cases refused
      · rw [performed]
  | finish group =>
      rcases nd.perform_finish_cases group with ⟨g, unit, -, -, performed⟩ | ⟨-, e, performed⟩
      · rw [performed] at refused
        cases refused
      · rw [performed]

/-! ## What a call does to the groups -/

/-- Every group stands at its number. -/
def Named (nd : NdRange) : Prop :=
  ∀ (id : Nat) (g : WorkGroup), nd.groups[id]? = some g → g.id = id

theorem getElem?_of_unmoved {call : Call} {id : Nat}
    (unmoved : ∀ g, nd.groups[id]? = some g → call.move id g.phase = g.phase) :
    nd.groups[id]? =
      nd.groups[id]?.map fun g => { g with phase := call.move id g.phase } := by
  rcases found : nd.groups[id]? with _ | g
  · rfl
  · rw [Option.map_some, unmoved g found]

theorem getElem?_of_moved {call : Call} {g : WorkGroup} {id : Nat}
    (found : nd.groups[g.id]? = some g)
    (others : id ≠ g.id → ∀ phase, call.move id phase = phase) :
    (nd.setPhase g (call.move g.id g.phase)).groups[id]? =
      nd.groups[id]?.map fun g => { g with phase := call.move id g.phase } := by
  rw [getElem?_setPhase found]
  by_cases same : id = g.id
  · rw [if_pos same, same, found, Option.map_some]
  · rw [if_neg same]
    exact getElem?_of_unmoved fun h _ => others same h.phase

/-- A call moves the group that it names, and nothing else happens to any group. -/
theorem Named.getElem?_perform (named : nd.Named) (call : Call) (id : Nat) :
    (nd.perform call).2.groups[id]? =
      nd.groups[id]?.map fun g => { g with phase := call.move id g.phase } := by
  cases call with
  | take =>
      rw [perform_take]
      rcases nd.pending with _ | ⟨group, rest⟩ <;> exact getElem?_of_unmoved fun _ _ => rfl
  | start group unit =>
      have others : id ≠ group → ∀ phase, (Call.start group unit).move id phase = phase :=
        fun apart phase => Call.move_of_ne phase (by simp [Ne.symm apart]) nofun
      rcases nd.perform_start_cases group unit with
        ⟨g, found, waits, performed⟩ | ⟨unfit, e, performed⟩
      · obtain rfl := named group g found
        have moved : (Call.start g.id unit).move g.id g.phase = .running unit := by
          simp [Call.move, waits]
        rw [performed, start, ← moved]
        exact getElem?_of_moved found others
      · rw [performed]
        refine getElem?_of_unmoved fun g found => ?_
        by_cases same : id = group
        · subst same
          have unfit := unfit g found
          rcases phase : g.phase with _ | on | on
          · exact absurd phase unfit
          · rfl
          · rfl
        · exact others same g.phase
  | finish group =>
      have others : id ≠ group → ∀ phase, (Call.finish group).move id phase = phase :=
        fun apart phase => Call.move_of_ne phase nofun (by simp [Ne.symm apart])
      rcases nd.perform_finish_cases group with
        ⟨g, unit, found, runs, performed⟩ | ⟨unfit, e, performed⟩
      · obtain rfl := named group g found
        have moved : (Call.finish g.id).move g.id g.phase = .done unit := by
          simp [Call.move, runs]
        rw [performed, finish, ← moved]
        exact getElem?_of_moved found others
      · rw [performed]
        refine getElem?_of_unmoved fun g found => ?_
        by_cases same : id = group
        · subst same
          rcases phase : g.phase with _ | on | on
          · rfl
          · exact absurd phase (unfit g on found)
          · rfl
        · exact others same g.phase

/-- No call changes the shape of a launch. -/
theorem Named.sameShape_perform (named : nd.Named) (call : Call) :
    (nd.perform call).2.SameShape nd := by
  cases call with
  | take =>
      rw [perform_take]
      rcases nd.pending with _ | ⟨group, rest⟩ <;> exact ⟨rfl, rfl, rfl, rfl, rfl, rfl⟩
  | start group unit =>
      rcases nd.perform_start_cases group unit with ⟨g, found, -, performed⟩ | ⟨-, e, performed⟩
      · obtain rfl := named group g found
        rw [performed]
        exact sameShape_setPhase found
      · rw [performed]
        exact .refl nd
  | finish group =>
      rcases nd.perform_finish_cases group with ⟨g, unit, found, -, performed⟩ | ⟨-, e, performed⟩
      · obtain rfl := named group g found
        rw [performed]
        exact sameShape_finish found
      · rw [performed]
        exact .refl nd

/-! ## The books -/

/-- How many groups are done, by their phases. -/
def finished (nd : NdRange) : Nat := nd.groups.countP (·.status = .done)

/-- What is kept of a launch, when `taken` groups have been taken: the others are in the queue, in
the order of their numbers, and those that are done have been counted. -/
structure Books (nd : NdRange) (taken : Nat) : Prop where
  named : nd.Named
  queue : nd.pending = List.range' taken (nd.groupCount - taken)
  counted : nd.doneCount = nd.finished

theorem finished_setPhase {g : WorkGroup} (found : nd.groups[g.id]? = some g)
    (unfinished : g.status ≠ .done) (phase : Phase) :
    (nd.setPhase g phase).finished = nd.finished + if phase.status = .done then 1 else 0 := by
  obtain ⟨inside, here⟩ := Array.getElem?_eq_some_iff.mp found
  have before : nd.groups[g.id].phase.status ≠ .done := by
    rw [here]
    exact unfinished
  by_cases done : phase.status = .done <;>
    simp [finished, setPhase, Array.setIfInBounds, inside, Array.countP_set, WorkGroup.status,
      before, done]

namespace Books

theorem named_perform (books : nd.Books taken) (call : Call) : (nd.perform call).2.Named := by
  intro id g found
  rw [books.named.getElem?_perform, Option.map_eq_some_iff] at found
  obtain ⟨h, found, rfl⟩ := found
  exact books.named id h found

/-- Groups are taken as long as there are any. -/
theorem answer_take (books : nd.Books taken) :
    (nd.perform .take).1 =
      (if taken < nd.groupCount then .taken taken else .refused (.nonePending nd.id)) := by
  rw [perform_take, books.queue]
  by_cases left : taken < nd.groupCount
  · obtain ⟨more, rest⟩ : ∃ more, nd.groupCount - taken = more + 1 :=
      ⟨nd.groupCount - taken - 1, by omega⟩
    rw [rest, List.range'_succ, if_pos left]
  · rw [Nat.sub_eq_zero_of_le (Nat.le_of_not_lt left), List.range'_zero, if_neg left]

/-- A group is taken off the queue, and another call leaves the queue as it is. -/
theorem pending_perform (books : nd.Books taken) (call : Call) :
    (nd.perform call).2.pending =
      List.range' (taken + takes [(nd.perform call).1])
        (nd.groupCount - (taken + takes [(nd.perform call).1])) := by
  cases call with
  | take =>
      rw [perform_take, books.queue]
      by_cases left : taken < nd.groupCount
      · obtain ⟨more, rest⟩ : ∃ more, nd.groupCount - taken = more + 1 :=
          ⟨nd.groupCount - taken - 1, by omega⟩
        have fewer : nd.groupCount - (taken + 1) = more := by omega
        rw [rest, List.range'_succ]
        simp [takes, Answer.isTaken, fewer]
      · rw [Nat.sub_eq_zero_of_le (Nat.le_of_not_lt left), List.range'_zero]
        simp [takes, Answer.isTaken, books.queue]
  | start group unit =>
      rcases nd.perform_start_cases group unit with ⟨g, -, -, performed⟩ | ⟨-, e, performed⟩
      all_goals
        rw [performed]
        exact books.queue
  | finish group =>
      rcases nd.perform_finish_cases group with ⟨g, unit, -, -, performed⟩ | ⟨-, e, performed⟩
      all_goals
        rw [performed]
        exact books.queue

/-- A group is counted when it is finished, and at no other time. -/
theorem counted_perform (books : nd.Books taken) (call : Call) :
    (nd.perform call).2.doneCount = (nd.perform call).2.finished := by
  have counted := books.counted
  cases call with
  | take =>
      rw [perform_take]
      rcases nd.pending with _ | ⟨group, rest⟩ <;> exact counted
  | start group unit =>
      rcases nd.perform_start_cases group unit with
        ⟨g, found, waits, performed⟩ | ⟨-, e, performed⟩
      · obtain rfl := books.named group g found
        have unfinished : g.status ≠ .done := by simp [WorkGroup.status, Phase.status, waits]
        have more := finished_setPhase found unfinished (.running unit)
        rw [performed]
        exact counted.trans more.symm
      · rw [performed]
        exact counted
  | finish group =>
      rcases nd.perform_finish_cases group with
        ⟨g, unit, found, runs, performed⟩ | ⟨-, e, performed⟩
      · obtain rfl := books.named group g found
        have unfinished : g.status ≠ .done := by simp [WorkGroup.status, Phase.status, runs]
        have more := finished_setPhase found unfinished (.done unit)
        rw [performed]
        exact (congrArg (· + 1) counted).trans more.symm
      · rw [performed]
        exact counted

/-- Every call keeps the books. -/
theorem kept_perform (books : nd.Books taken) (call : Call) :
    (nd.perform call).2.Books (taken + takes [(nd.perform call).1]) where
  named := books.named_perform call
  queue := by rw [(books.named.sameShape_perform call).groupCount, books.pending_perform]
  counted := books.counted_perform call

/-- So do any calls. -/
theorem kept_session (books : nd.Books taken) (calls : List Call) :
    (session perform nd calls).2.Books (taken + takes (session perform nd calls).1) := by
  induction calls generalizing nd taken with
  | nil => exact books
  | cons call rest ih =>
      have later := ih (books.kept_perform call)
      have total : takes (session perform nd (call :: rest)).1 =
          takes [(nd.perform call).1] + takes (session perform (nd.perform call).2 rest).1 := by
        rw [session_cons, takes, List.countP_cons]
        simp only [takes, List.countP_singleton]
        omega
      rw [total, ← Nat.add_assoc]
      exact later

theorem sameShape_session (books : nd.Books taken) (calls : List Call) :
    (session perform nd calls).2.SameShape nd := by
  induction calls generalizing nd taken with
  | nil => exact .refl nd
  | cons call rest ih =>
      exact (ih (books.kept_perform call)).trans (books.named.sameShape_perform call)

end Books

/-- What a launch may become by calls. -/
def Becomes (nd next : NdRange) : Prop := ∃ calls, next = (session perform nd calls).2

theorem Becomes.refl (nd : NdRange) : nd.Becomes nd := ⟨[], rfl⟩

theorem Becomes.perform {next : NdRange} (becomes : nd.Becomes next) (call : Call) :
    nd.Becomes (next.perform call).2 := by
  obtain ⟨calls, rfl⟩ := becomes
  exact ⟨calls ++ [call], by rw [session_append]; rfl⟩

theorem books_cut (launch id : Nat) (kernelName : String) (globalSize localSize : Dim3)
    (wavefrontSize count size : Nat) :
    (cut launch id kernelName globalSize localSize wavefrontSize count size).Books 0 where
  named := consistent_cut.named
  queue := by simp [cut, groupCount, List.range_eq_range']
  counted := by
    symm
    refine Array.countP_eq_zero.mpr fun g member => ?_
    obtain ⟨i, here⟩ := Array.getElem?_of_mem member
    obtain ⟨-, rfl⟩ := getElem?_groups_cut here
    simp [WorkGroup.status, Phase.status]

/-! ## Histories -/

/-- One call takes a group at most one step on. -/
theorem Named.leads_perform (named : nd.Named) (call : Call) {g : WorkGroup}
    (found : nd.groups[group]? = some g) :
    ∃ h, (nd.perform call).2.groups[group]? = some h ∧
      (h.status = g.status ∨ Status.Next g.status h.status) ∧ g.Leads h := by
  refine ⟨{ g with phase := call.move group g.phase }, ?_, call.status_move group g.phase, ?_, ?_⟩
  · rw [named.getElem?_perform, found, Option.map_some]
  · show Relation.ReflTransGen Status.Next g.status (call.move group g.phase).status
    rcases call.status_move group g.phase with same | next
    · rw [same]
      exact .refl
    · exact .single next
  · exact fun unit settled => call.unit?_move settled

/-- Any calls take a group any number of steps on, but never back. -/
theorem Books.leads_session (books : nd.Books taken) (calls : List Call) {g : WorkGroup}
    (found : nd.groups[group]? = some g) :
    ∃ h, (session perform nd calls).2.groups[group]? = some h ∧ g.Leads h := by
  induction calls generalizing nd taken g with
  | nil => exact ⟨g, found, .refl, fun _ settled => settled⟩
  | cons call rest ih =>
      obtain ⟨h, here, -, first⟩ := books.named.leads_perform call found
      obtain ⟨k, there, others⟩ := ih (books.kept_perform call) here
      exact ⟨k, there, first.trans others⟩

theorem Books.allDone_iff (books : nd.Books taken) :
    nd.allDone = true ↔ ∀ g ∈ nd.groups, g.status = .done := by
  simp only [allDone, groupCount, books.counted, finished, beq_iff_eq, Array.countP_eq_size,
    decide_eq_true_eq]

/-- Whatever calls are made to a new launch: as long as fewer groups have been taken than there are,
the next one is taken, in the order of their numbers. Every group has waited at first. From any call
to any later one a group only goes on its way, and it keeps its unit, which it has unless it waits.
The groups that are done are counted, and a refused call changes nothing. -/
theorem books_are_kept {launch id : Nat} {kernelName : String} {globalSize localSize : Dim3}
    {wavefrontSize : Nat}
    (made : create launch id kernelName globalSize localSize wavefrontSize = .ok origin)
    (calls : List Call) :
    let (answers, nd) := session perform origin calls
    nd.groupCount = origin.groupCount ∧
      (∀ i, calls[i]? = some .take →
        answers[i]? = some
          (if takes (answers.take i) < origin.groupCount then .taken (takes (answers.take i))
          else .refused (.nonePending id))) ∧
      (∀ g ∈ origin.groups, g.status = .pending) ∧
      (∀ g ∈ nd.groups, g.unit? = none ↔ g.status = .pending) ∧
      nd.doneCount = nd.groups.countP (·.status = .done) ∧
      (nd.allDone = true ↔ ∀ g ∈ nd.groups, g.status = .done) ∧
      (∀ call, (nd.perform call).1.isRefusal = true → (nd.perform call).2 = nd) ∧
      (∀ (call : Call) (group : Nat) (g : WorkGroup), nd.groups[group]? = some g →
        ∃ h : WorkGroup, (nd.perform call).2.groups[group]? = some h ∧
          (h.status = g.status ∨ Status.Next g.status h.status)) ∧
      ∀ (later : List Call) (group : Nat) (g : WorkGroup), nd.groups[group]? = some g →
        ∃ h : WorkGroup, (session perform nd later).2.groups[group]? = some h ∧ g.Leads h := by
  obtain ⟨-, -, itemCount, groupSize, -, -, rfl⟩ := create_eq_ok made
  have new := books_cut launch id kernelName globalSize localSize wavefrontSize
    (itemCount / groupSize) groupSize
  have books := new.kept_session calls
  refine ⟨(new.sameShape_session calls).groupCount, fun i asked => ?_, fun g member => ?_,
    fun g _ => g.phase.unit?_eq_none_iff, books.counted, books.allDone_iff,
    fun call => perform_of_isRefusal,
    fun call group g found => ?_, fun later group g found => books.leads_session later found⟩
  · have now := new.kept_session (calls.take i)
    have shape := new.sameShape_session (calls.take i)
    rw [getElem?_session, asked, Option.map_some, now.answer_take, shape.groupCount, shape.id,
      take_session, Nat.zero_add]
    rfl
  · obtain ⟨i, here⟩ := Array.getElem?_of_mem member
    obtain ⟨-, rfl⟩ := getElem?_groups_cut here
    rfl
  · obtain ⟨h, here, step, -⟩ := books.named.leads_perform call found
    exact ⟨h, here, step⟩

/-- Of two groups one is started twice and finished twice; the other is finished without having been
started. A third one cannot be taken. -/
theorem books_are_kept_of_two_groups :
    ∃ origin, create 0 7 "copy" ⟨4, 1, 1⟩ ⟨2, 1, 1⟩ 2 = .ok origin ∧
      let calls : List Call :=
        [.take, .start 0 5, .start 0 6, .take, .finish 1, .finish 0, .finish 0, .take]
      let (answers, nd) := session perform origin calls
      answers =
        [.taken 0, .marked, .refused (.invalidTransition 0 .running .running), .taken 1,
          .refused (.invalidTransition 1 .pending .done), .marked,
          .refused (.invalidTransition 0 .done .done), .refused (.nonePending 7)] ∧
        nd.doneCount = 1 ∧ nd.doneCount = nd.groups.countP (·.status = .done) ∧
        (nd.allDone = true ↔ ∀ g ∈ nd.groups, g.status = .done) ∧
        ∀ (later : List Call) (group : Nat) (g : WorkGroup), nd.groups[group]? = some g →
          ∃ h : WorkGroup, (session perform nd later).2.groups[group]? = some h ∧ g.Leads h := by
  have made : create 0 7 "copy" ⟨4, 1, 1⟩ ⟨2, 1, 1⟩ 2 = .ok _ := rfl
  refine ⟨_, made, rfl, rfl, ?_⟩
  obtain ⟨-, -, -, -, counted, finished, -, -, history⟩ := books_are_kept made
    [.take, .start 0 5, .start 0 6, .take, .finish 1, .finish 0, .finish 0, .take]
  exact ⟨counted, finished, history⟩

end NdRange

end Accelerator
