import Accelerator.Proofs.Pipeline.Following

/-!
# The passage of an instruction

An instruction crosses the six stages in as many cycles or more, and the trace tells in which. A
`Passage` are these cycles, and `Passage.events` what the trace has to say about them. What can be
told before the instruction is written back is a prefix of that, up to the stage that has handed it
on last.

A wavefront runs one instruction after the other. Its *journey* are the passages of those that are
written back.
-/

namespace Accelerator

/-- The events that are about a wavefront. -/
def TraceEvent.about (wavefront : Nat) (events : List TraceEvent) : List TraceEvent :=
  events.filter (·.wavefront == some wavefront)

/-- Which wavefront is told about, and where it runs. -/
structure Subject where
  unit : Nat
  group : Nat
  wavefront : Nat

namespace Subject

/-- Something happens to an instruction of the wavefront at a stage. -/
def event (s : Subject) (cycle : Nat) (stage : Stage) (action : Action) : TraceEvent where
  cycle
  unit := s.unit
  group := s.group
  wavefront := some s.wavefront
  stage := some stage
  action

/-- A stage takes an instruction that was produced in an earlier cycle. -/
def consumes (s : Subject) (cycle : Nat) (stage : Stage) (producedAt : Nat) : TraceEvent :=
  (s.event cycle stage .consume).withProducedAt producedAt

/-- A stage takes an instruction and hands it on in the same cycle. -/
def crosses (s : Subject) (cycle : Nat) (stage : Stage) (producedAt : Nat) : List TraceEvent :=
  [s.consumes cycle stage producedAt, s.event cycle stage .produce]

end Subject

/-- How many requests the instruction at a position makes in a number of turns. -/
def SyntheticProgram.requestsAt (p : SyntheticProgram) (turns pc : Nat) : Nat :=
  if p.accesses pc then turns else 0

/-! ## Passages -/

/-- The cycles in which an instruction crosses the pipeline, each named for the stage that hands it
on in that cycle. The last stage takes it only. -/
structure Passage where
  schedule : Nat
  fetch : Nat := 0
  decode : Nat := 0
  read : Nat := 0
  /-- The execute stage takes the instruction up. -/
  begun : Nat := 0
  /-- The cycles in which memory takes a request that the instruction makes. -/
  requests : List Nat := []
  execute : Nat := 0
  write : Nat := 0

namespace Passage

/-- When a stage is through with the instruction. -/
def handed (x : Passage) : Stage → Nat
  | .schedule => x.schedule
  | .fetch => x.fetch
  | .decode => x.decode
  | .read => x.read
  | .execute => x.execute
  | .write => x.write

/-- The passage goes on: a stage is through with the instruction. -/
def reach (x : Passage) (stage : Stage) (cycle : Nat) : Passage :=
  match stage with
  | .schedule => { x with schedule := cycle }
  | .fetch => { x with fetch := cycle }
  | .decode => { x with decode := cycle }
  | .read => { x with read := cycle }
  | .execute => { x with execute := cycle }
  | .write => { x with write := cycle }

/-- What is told of the time in the execute stage, until the instruction is handed on. -/
def work (x : Passage) (s : Subject) : List TraceEvent :=
  s.consumes x.begun .execute x.read :: x.requests.map (s.event · .execute .memoryIssue)

/-- What is told of the instruction at a stage. The wavefront retires with its last one. -/
def reports (x : Passage) (s : Subject) (last : Bool) : Stage → List TraceEvent
  | .schedule => [s.event x.schedule .schedule .produce]
  | .fetch => s.crosses x.fetch .fetch x.schedule
  | .decode => s.crosses x.decode .decode x.fetch
  | .read => s.crosses x.read .read x.decode
  | .execute => x.work s ++ [s.event x.execute .execute .produce]
  | .write => s.consumes x.write .write x.execute ::
      if last then [s.event x.write .write .retire] else []

/-- All that is told of the instruction. -/
def events (x : Passage) (s : Subject) (last : Bool) : List TraceEvent :=
  Stage.all.flatMap (x.reports s last)

/-- What has been told once a stage has handed the instruction on. -/
def eventsTo (x : Passage) (s : Subject) (stage : Stage) : List TraceEvent :=
  (Stage.all.take (stage.index + 1)).flatMap (x.reports s false)

/-- By the end of a cycle the instruction has been taken up, after it was read, and has made all the
requests that are told of, one after the other. -/
def Underway (x : Passage) (now : Nat) : Prop :=
  x.read < x.begun ∧ x.begun ≤ now ∧
    (∀ cycle ∈ x.requests, x.begun ≤ cycle ∧ cycle ≤ now) ∧ x.requests.Pairwise (· < ·)

/-- A stage takes the instruction in a later cycle than the one in which it was produced. In the
execute stage it makes `requests` requests. -/
def OnTime (x : Passage) (requests : Nat) : Stage → Prop
  | .schedule => True
  | .fetch => x.schedule < x.fetch
  | .decode => x.fetch < x.decode
  | .read => x.decode < x.read
  | .execute => x.Underway x.execute ∧ x.requests.length = requests
  | .write => x.execute < x.write

/-- The instruction has crossed all stages up to a given one in order. -/
def InOrder (x : Passage) (requests : Nat) (stage : Stage) : Prop :=
  ∀ earlier : Stage, earlier.index ≤ stage.index → x.OnTime requests earlier

variable {x : Passage} {s : Subject} {stage : Stage} {cycle requests : Nat}

@[simp] theorem handed_reach : (x.reach stage cycle).handed stage = cycle := by
  cases stage <;> rfl

/-- What comes later in a passage does not change what has been told. -/
theorem eventsTo_reach {earlier : Stage} (before : earlier.index < stage.index) :
    (x.reach stage cycle).eventsTo s earlier = x.eventsTo s earlier := by
  cases earlier <;> cases stage <;> first | rfl | exact absurd before (by decide)

theorem onTime_reach {earlier : Stage} (before : earlier.index < stage.index) :
    (x.reach stage cycle).OnTime requests earlier ↔ x.OnTime requests earlier := by
  cases earlier <;> cases stage <;> first | rfl | exact absurd before (by decide)

theorem InOrder.reach (inOrder : x.InOrder requests stage) (handing : stage ≠ .write)
    (onTime : (x.reach stage.reader cycle).OnTime requests stage.reader) :
    (x.reach stage.reader cycle).InOrder requests stage.reader := by
  have next : stage.reader.index = stage.index + 1 := by
    cases stage <;> first | rfl | exact absurd rfl handing
  intro earlier before
  rcases Nat.lt_or_ge earlier.index stage.reader.index with inside | outside
  · exact (onTime_reach inside).mpr (inOrder earlier (by omega))
  · have same : earlier = stage.reader := by
      cases earlier <;> cases stage <;> simp_all [Stage.index, Stage.reader]
    rwa [same]

/-- The cycles of an instruction that has crossed all stages. -/
theorem InOrder.ascending (inOrder : x.InOrder requests .write) :
    x.schedule < x.fetch ∧ x.fetch < x.decode ∧ x.decode < x.read ∧ x.read < x.begun ∧
      x.begun ≤ x.execute ∧ x.execute < x.write ∧ x.requests.length = requests ∧
      x.requests.Pairwise (· < ·) ∧ ∀ cycle ∈ x.requests, x.begun ≤ cycle ∧ cycle ≤ x.execute := by
  obtain ⟨⟨taken, begun, within, ascending⟩, made⟩ := inOrder .execute (by decide)
  exact ⟨inOrder .fetch (by decide), inOrder .decode (by decide), inOrder .read (by decide), taken,
    begun, inOrder .write (by decide), made, ascending, within⟩

/-- The time in the execute stage comes after the passage up to the read stage. -/
theorem InOrder.withWork (inOrder : x.InOrder requests .read) (begun : Nat) (made : List Nat) :
    ({ x with begun, requests := made } : Passage).InOrder requests .read := by
  intro earlier before
  have onTime := inOrder earlier before
  cases earlier <;> first | exact onTime | exact absurd before (by decide)

/-- The next stage adds what is told of it. -/
theorem eventsTo_reader (handing : stage ≠ .write) :
    x.eventsTo s stage.reader = x.eventsTo s stage ++ x.reports s false stage.reader := by
  cases stage <;>
    first | exact absurd rfl handing | simp [eventsTo, Stage.all, Stage.reader, Stage.index]

/-- A stage of a single cycle takes the instruction and hands it on. -/
theorem reach_single (x : Passage) (s : Subject) (cycle requests : Nat)
    (single : stage = .schedule ∨ stage = .fetch ∨ stage = .decode) :
    ((x.reach stage.reader cycle).OnTime requests stage.reader ↔ x.handed stage < cycle) ∧
      (x.reach stage.reader cycle).reports s false stage.reader =
        s.crosses cycle stage.reader (x.handed stage) := by
  rcases single with rfl | rfl | rfl <;> exact ⟨Iff.rfl, rfl⟩

theorem events_eq (last : Bool) :
    x.events s last = x.eventsTo s .execute ++ x.reports s last .write := by
  simp [events, eventsTo, Stage.all, Stage.index, reports]

/-- What is told of a wavefront that has run the first instructions of a program of some length. -/
def tale (s : Subject) (length : Nat) (done : List Passage) : List TraceEvent :=
  (done.mapIdx fun pc x => x.events s (pc + 1 == length)).flatten

@[simp] theorem tale_nil (s : Subject) (length : Nat) : tale s length [] = [] := rfl

theorem tale_append (s : Subject) (length : Nat) (done : List Passage) (x : Passage) :
    tale s length (done ++ [x]) = tale s length done ++ x.events s (done.length + 1 == length) := by
  simp [tale, List.mapIdx_append]

/-! ## What is told of an instruction under way -/

section Telling

variable (x : Passage) (s : Subject) (p : SyntheticProgram) (turns : Nat) (done : List Passage)
  (log : List TraceEvent)

/-- `log` tells of the instructions with the passages `done` and of the next one as far as a stage
that has handed it on. -/
structure Reaches (stage : Stage) (producedAt : Nat) : Prop where
  inOrder : x.InOrder (p.requestsAt turns done.length) stage
  handed : x.handed stage = producedAt
  fresh : ∀ y ∈ done, y.write < x.schedule
  told : log = tale s p.length done ++ x.eventsTo s stage

/-- `log` tells of the instructions with the passages `done` and of the next one, which is in the
execute stage and has had some of its turns. -/
structure AtWork (turn now : Nat) : Prop where
  inOrder : x.InOrder (p.requestsAt turns done.length) .read
  underway : x.Underway now
  made : x.requests.length = p.requestsAt turn done.length
  fresh : ∀ y ∈ done, y.write < x.schedule
  told : log = tale s p.length done ++ (x.eventsTo s .read ++ x.work s)

end Telling

end Passage

/-! ## Journeys -/

/-- The passages of the first instructions of a program, which a wavefront has run one after the
other. -/
structure Journey (p : SyntheticProgram) (turns : Nat) (done : List Passage) : Prop where
  inOrder : ∀ (pc : Nat) (x : Passage), done[pc]? = some x →
    x.InOrder (p.requestsAt turns pc) .write
  successive : ∀ (pc : Nat) (x y : Passage), done[pc]? = some x → done[pc + 1]? = some y →
    x.write < y.schedule

namespace Journey

variable {p : SyntheticProgram} {turns : Nat} {done : List Passage} {x : Passage}

theorem nil (p : SyntheticProgram) (turns : Nat) : Journey p turns [] :=
  ⟨nofun, nofun⟩

/-- A journey goes on with an instruction that is issued after all others are written back. -/
theorem append (journey : Journey p turns done)
    (inOrder : x.InOrder (p.requestsAt turns done.length) .write)
    (later : ∀ y ∈ done, y.write < x.schedule) : Journey p turns (done ++ [x]) where
  inOrder pc y found := by
    rcases Nat.lt_or_ge pc done.length with inside | outside
    · rw [List.getElem?_append_left inside] at found
      exact journey.inOrder pc y found
    · rw [List.getElem?_append_right outside, List.getElem?_singleton] at found
      split at found
      next here =>
        cases found
        rwa [show pc = done.length by omega]
      next => cases found
  successive pc y z first second := by
    rcases Nat.lt_or_ge (pc + 1) done.length with inside | outside
    · rw [List.getElem?_append_left inside] at second
      rw [List.getElem?_append_left (Nat.lt_of_succ_lt inside)] at first
      exact journey.successive pc y z first second
    · rw [List.getElem?_append_right outside, List.getElem?_singleton] at second
      split at second
      next here =>
        cases second
        rw [List.getElem?_append_left (by omega)] at first
        exact later y (List.mem_of_getElem? first)
      next => cases second

end Journey

end Accelerator
