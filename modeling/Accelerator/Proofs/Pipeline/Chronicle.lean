import Accelerator.Proofs.Pipeline.Passage
import Mathlib.Data.List.Nodup
import Mathlib.Data.List.Pairwise

/-!
# What a unit tells of a wavefront

In a cycle each stage deals with one slot at most, and no two stages with slots of the same
wavefront. So whatever a cycle tells of a wavefront comes from one stage, in whatever order the
stages are evaluated (`Sound.news_eq`).

`ComputeUnit.Tells` ties what has been told of a wavefront to where its next instruction stands: in
a latch, in the execute stage, or not in the pipeline at all. A cycle keeps it so, because the stage
that moves the slot tells the next part of its passage (`Tells.next`).
-/

namespace Accelerator

theorem Stage.mem_all (stage : Stage) : stage ∈ all := by
  cases stage <;> decide

/-- If only one stage has anything to contribute, it does not matter when it is evaluated. -/
theorem StageOrder.flatMap_stages {α : Type} {f : Stage → List α} {stage : Stage}
    (order : StageOrder) (others : ∀ other, other ≠ stage → f other = []) :
    order.stages.flatMap f = f stage := by
  cases order <;> cases stage <;> simp [stages, Stage.all, others]

namespace ComputeUnit

variable {u : ComputeUnit} {cycle group : Nat} {a : Answers} {stage other : Stage} {slot : Slot}

/-! ## One stage at a time -/

/-- The slots that are on their way to a stage, or in it. -/
def due (u : ComputeUnit) : Stage → List Slot
  | .schedule => []
  | .fetch => u.latches.schedule.current.toList
  | .decode => u.latches.fetch.current.toList
  | .read => u.latches.decode.current.toList
  | .execute => u.latches.read.current.toList ++ (u.executing.map (·.slot)).toList
  | .write => u.latches.execute.current.toList

theorem slots_eq_flatMap (u : ComputeUnit) : u.slots = Stage.all.flatMap u.due := by
  simp [slots, due, Stage.all]

theorem mem_slots_of_due (due : slot ∈ u.due stage) : slot ∈ u.slots := by
  rw [slots_eq_flatMap, List.mem_flatMap]
  exact ⟨stage, stage.mem_all, due⟩

theorem Sound.distinct_due (sound : u.Sound) :
    (∀ stage ∈ Stage.all, ((u.due stage).map (·.index)).Nodup) ∧
      Stage.all.Pairwise (Function.onFun List.Disjoint fun stage =>
        (u.due stage).map (·.index)) := by
  have distinct := sound.distinct
  rwa [slots_eq_flatMap, List.map_flatMap, List.nodup_flatMap] at distinct

/-- A wavefront is not under way to two stages. -/
theorem Sound.stage_eq (sound : u.Sound) {first second : Slot} (here : first ∈ u.due stage)
    (there : second ∈ u.due other) (same : first.index = second.index) : stage = other := by
  by_contra differs
  have : Std.Symm (Function.onFun List.Disjoint fun stage => (u.due stage).map (·.index)) :=
    ⟨fun _ _ => List.disjoint_symm⟩
  have apart := sound.distinct_due.2.forall stage.mem_all other.mem_all differs
  exact apart (List.mem_map_of_mem here) (same ▸ List.mem_map_of_mem there)

/-- The slot that a stage deals with in the coming cycle. -/
def handled (u : ComputeUnit) (cycle : Nat) : Stage → Option Slot
  | .schedule => u.issued cycle
  | .execute => (u.atWork cycle).map (·.slot)
  | stage => u.taken stage

theorem due_of_taken (taken : u.taken stage = some slot) : slot ∈ u.due stage := by
  cases stage <;> simp [ComputeUnit.taken] at taken <;> simp [due, taken]

theorem due_of_handled (handled : u.handled cycle stage = some slot) (later : stage ≠ .schedule) :
    slot ∈ u.due stage := by
  cases stage with
  | schedule => exact absurd rfl later
  | execute =>
      obtain ⟨ex, working, rfl⟩ := Option.map_eq_some_iff.mp handled
      unfold atWork at working
      split at working
      next slot taken =>
        cases working
        exact due_of_taken taken
      next => simp [due, working]
  | _ => exact due_of_taken handled

/-- No two stages deal with the same wavefront. -/
theorem Sound.handled_inj (sound : u.Sound) {first second : Slot}
    (here : u.handled cycle stage = some first) (there : u.handled cycle other = some second)
    (same : first.index = second.index) : stage = other := by
  by_cases new : stage = .schedule <;> by_cases new' : other = .schedule
  · rw [new, new']
  · subst new
    exact absurd same (sound.issued_ne here (mem_slots_of_due (due_of_handled there new')))
  · subst new'
    exact absurd same.symm (sound.issued_ne there (mem_slots_of_due (due_of_handled here new)))
  · exact sound.stage_eq (due_of_handled here new) (due_of_handled there new') same

theorem due_of_current (held : (u.latches.get stage).current = some slot) :
    slot ∈ u.due stage.reader := by
  cases stage with
  | write => cases held
  | read => exact List.mem_append_left _ (Option.mem_toList.mpr held)
  | _ => exact Option.mem_toList.mpr held

theorem due_of_executing {ex : Execution} (working : u.executing = some ex) :
    ex.slot ∈ u.due .execute := by
  simp [due, working]

/-- No stage deals with a slot that stays in its latch. -/
theorem Sound.handled_ne_of_stays (sound : u.Sound)
    (held : (u.latches.get stage).current = some slot) (untaken : u.taken stage.reader = none)
    {new : Slot} (handled : u.handled cycle other = some new) : new.index ≠ slot.index := by
  intro same
  have due := due_of_current held
  by_cases first : other = .schedule
  · subst first
    exact sound.issued_ne handled (mem_slots_of_due due) same
  · have member := due_of_handled handled first
    cases sound.stage_eq member due same
    cases stage with
    | write => cases held
    | read =>
        have untaken : u.taken .execute = none := untaken
        have working : u.executing.map (·.slot) = some new := by
          simpa [ComputeUnit.handled, Stage.reader, atWork, untaken] using handled
        have distinct := sound.distinct_due.1 .execute (by decide)
        have read : u.latches.read.current = some slot := held
        simp [ComputeUnit.due, read, working, same] at distinct
    | _ => cases untaken.symm.trans handled

/-- A slot belongs to the wavefront at its place. -/
theorem Sound.resident_of_handled (sound : u.Sound) (handled : u.handled cycle stage = some slot) :
    ∃ r, u.wavefronts[slot.index]? = some r ∧ slot.wavefront = r.wavefront.id := by
  by_cases new : stage = .schedule
  · subst new
    obtain ⟨index, r, -, found, rfl⟩ := issued_eq_some_iff.mp handled
    exact ⟨r, found, rfl⟩
  · obtain ⟨r, found, wavefront, -⟩ :=
      sound.carried slot (mem_slots_of_due (due_of_handled handled new))
    exact ⟨r, found, wavefront⟩

theorem handled_of_taken (taken : u.taken stage = some slot) :
    u.handled cycle stage = some slot := by
  cases stage with
  | schedule => cases taken
  | execute => simp [handled, atWork, taken]
  | _ => exact taken

theorem handled_of_given (given : u.given cycle a stage = some slot) :
    ∃ old, u.handled cycle stage = some old ∧ slot.wavefront = old.wavefront := by
  cases stage with
  | schedule => exact ⟨slot, given, rfl⟩
  | write => cases given
  | execute =>
      obtain ⟨ex, leaves, rfl⟩ := Option.map_eq_some_iff.mp given
      obtain ⟨worked, -⟩ := Option.filter_eq_some_iff.mp leaves
      obtain ⟨before, working, rfl⟩ := Option.map_eq_some_iff.mp worked
      exact ⟨before.slot, congrArg (Option.map _) working, by simp⟩
  | _ =>
      obtain ⟨old, taken, rfl⟩ := Option.map_eq_some_iff.mp given
      exact ⟨old, taken, rfl⟩

/-- Every event of a stage is about the slot that it deals with. -/
theorem wavefront_of_mem_stageEvents {e : TraceEvent}
    (told : e ∈ u.stageEvents cycle group a stage) :
    ∃ slot, u.handled cycle stage = some slot ∧ e.wavefront = some slot.wavefront := by
  simp only [stageEvents, List.mem_append, List.mem_map, Option.mem_toList, or_assoc] at told
  rcases told with ⟨slot, taken, rfl⟩ | memory | ⟨slot, given, rfl⟩ | retired
  · exact ⟨slot, handled_of_taken taken, rfl⟩
  · split at memory
    next isExecute =>
      obtain ⟨rfl, -⟩ := isExecute
      obtain ⟨ex, working, rfl⟩ := List.mem_map.mp memory
      exact ⟨ex.slot, congrArg (Option.map _) (Option.mem_toList.mp working), rfl⟩
    next => cases memory
  · obtain ⟨old, handled, wavefront⟩ := handled_of_given given
    exact ⟨old, handled, congrArg some wavefront⟩
  · split at retired
    next =>
      obtain ⟨slot, taken, rfl⟩ := List.mem_map.mp retired
      exact ⟨slot, handled_of_taken (Option.mem_toList.mp taken), rfl⟩
    next => cases retired

/-- No two wavefronts of the unit have the same number. -/
def Labelled (u : ComputeUnit) : Prop :=
  ∀ (i j : Nat) (r r' : Resident), u.wavefronts[i]? = some r → u.wavefronts[j]? = some r' →
    r.wavefront.id = r'.wavefront.id → i = j

theorem about_stageEvents_of_ne {wavefront : Nat}
    (others : ∀ slot, u.handled cycle stage = some slot → slot.wavefront ≠ wavefront) :
    TraceEvent.about wavefront (u.stageEvents cycle group a stage) = [] := by
  refine List.filter_eq_nil_iff.mpr fun e told isAbout => ?_
  obtain ⟨slot, handled, is⟩ := wavefront_of_mem_stageEvents told
  rw [is, beq_iff_eq, Option.some.injEq] at isAbout
  exact others slot handled isAbout

/-- What a cycle tells of a wavefront. -/
def news (u : ComputeUnit) (order : StageOrder) (cycle group : Nat) (a : Answers)
    (wavefront : Nat) : List TraceEvent :=
  TraceEvent.about wavefront (order.stages.flatMap (u.stageEvents cycle group a))

/-- What a cycle tells of a wavefront is what the one stage tells that deals with it. -/
theorem Sound.news_eq (sound : u.Sound) (labelled : u.Labelled) (order : StageOrder)
    (handled : u.handled cycle stage = some slot) :
    u.news order cycle group a slot.wavefront = u.stageEvents cycle group a stage := by
  obtain ⟨r, found, wavefront⟩ := sound.resident_of_handled handled
  have filtered : order.stages.flatMap (fun stage =>
      TraceEvent.about slot.wavefront (u.stageEvents cycle group a stage)) =
        TraceEvent.about slot.wavefront (u.stageEvents cycle group a stage) := by
    refine order.flatMap_stages fun other differs => about_stageEvents_of_ne ?_
    intro slot' handled' same
    obtain ⟨r', found', wavefront'⟩ := sound.resident_of_handled handled'
    have index := labelled _ _ _ _ found' found (by rw [← wavefront', same, wavefront])
    exact differs (sound.handled_inj handled' handled index)
  rw [news, TraceEvent.about, List.filter_flatMap]
  refine filtered.trans (List.filter_eq_self.mpr fun e told => ?_)
  obtain ⟨slot', handled', is⟩ := wavefront_of_mem_stageEvents told
  cases handled.symm.trans handled'
  rw [is, beq_self_eq_true]

/-- A cycle tells nothing of a wavefront that no stage deals with. -/
theorem news_eq_nil {wavefront : Nat} (order : StageOrder)
    (others : ∀ stage slot, u.handled cycle stage = some slot → slot.wavefront ≠ wavefront) :
    u.news order cycle group a wavefront = [] := by
  rw [news, TraceEvent.about, List.filter_flatMap, List.flatMap_eq_nil_iff]
  exact fun stage _ => about_stageEvents_of_ne (others stage)

/-! ## What the stages tell -/

/-- A wavefront of a group on the unit. -/
def subject (u : ComputeUnit) (group wavefront : Nat) : Subject := ⟨u.id, group, wavefront⟩

theorem stageEvent_eq (action : Action) :
    u.stageEvent cycle group stage action slot =
      (u.subject group slot.wavefront).event cycle stage action :=
  rfl

theorem stageEvents_schedule (issued : u.issued cycle = some slot) :
    u.stageEvents cycle group a .schedule =
      [(u.subject group slot.wavefront).event cycle .schedule .produce] := by
  simp [stageEvents, given, ComputeUnit.taken, issued, stageEvent_eq]

/-- A slot that is handed on by a stage of a single cycle comes from the stage before. -/
theorem taken_of_given (single : stage = .schedule ∨ stage = .fetch ∨ stage = .decode)
    (given : u.given cycle a stage.reader = some slot) :
    ∃ old, u.taken stage.reader = some old ∧ (u.latches.get stage).current = some old ∧
      slot.index = old.index ∧ slot.producedAt = cycle := by
  rcases single with rfl | rfl | rfl <;>
  · obtain ⟨old, taken, rfl⟩ := Option.map_eq_some_iff.mp given
    exact ⟨old, taken, (Option.ite_none_right_eq_some.mp taken).2, rfl, rfl⟩

theorem stageEvents_single (single : stage = .schedule ∨ stage = .fetch ∨ stage = .decode)
    (taken : u.taken stage.reader = some slot) :
    u.stageEvents cycle group a stage.reader =
      (u.subject group slot.wavefront).crosses cycle stage.reader slot.producedAt := by
  rcases single with rfl | rfl | rfl <;>
    simp only [Stage.reader] at taken ⊢ <;>
    simp [stageEvents, given, taken, stageEvent_eq, subject, Subject.crosses, Subject.consumes]

theorem stageEvents_write (taken : u.taken .write = some slot) :
    u.stageEvents cycle group a .write =
      (u.subject group slot.wavefront).consumes cycle .write slot.producedAt ::
        if a.retired then [(u.subject group slot.wavefront).event cycle .write .retire] else [] := by
  simp [stageEvents, given, taken, stageEvent_eq, subject, Subject.consumes]

theorem stageEvents_execute {ex : Execution} (working : u.atWork cycle = some ex) :
    let s := u.subject group ex.slot.wavefront
    u.stageEvents cycle group a .execute =
      ((u.taken .execute).toList.map fun slot => s.consumes cycle .execute slot.producedAt) ++
        (if a.ready.isSome then [s.event cycle .execute .memoryIssue] else []) ++
        if (ex.advance a.ready).isOver cycle then [s.event cycle .execute .produce] else [] := by
  have same : ∀ slot, u.taken .execute = some slot → slot = ex.slot := by
    intro slot taken
    rw [atWork, taken] at working
    cases working
    rfl
  rcases taken : u.taken .execute with _ | slot
  · cases leaves : (ex.advance a.ready).isOver cycle <;>
      simp [stageEvents, given, worked, working, taken, leaves, Option.filter, stageEvent_eq,
        subject]
  · cases same slot taken
    cases leaves : (ex.advance a.ready).isOver cycle <;>
      simp [stageEvents, given, worked, working, taken, leaves, Option.filter, stageEvent_eq,
        subject, Subject.consumes]

/-! ## What has been told of a wavefront -/

section Tells

variable {p : SyntheticProgram} {μ : Type} [MemoryService μ] (memory : μ) {index now : Nat}
  {w : Wavefront} {done : List Passage} {log : List TraceEvent}

/-- By the end of the cycle `now`, `log` tells all about the wavefront `w` at a position of the unit.
The instructions that it has written back have the passages `done`, and what is told of the next one
shows where that is. -/
structure Tells (u : ComputeUnit) (p : SyntheticProgram) (group index : Nat) (w : Wavefront)
    (now : Nat) (done : List Passage) (log : List TraceEvent) : Prop where
  journey : Journey p (u.turnsAt index) done
  past : ∀ y ∈ done, y.write ≤ now
  resident : ∃ r, u.wavefronts[index]? = some r ∧ r.wavefront = w ∧ r.pc = done.length ∧
    (r.retired = true → done.length = p.length) ∧
    (r.inFlight = false → log = Passage.tale (u.subject group w.id) p.length done)
  behind : ∀ (stage : Stage) (slot : Slot), (u.latches.get stage).current = some slot →
    slot.index = index → slot.producedAt ≤ now ∧ ∃ x : Passage,
      x.Reaches (u.subject group w.id) p (u.turnsAt index) done log stage slot.producedAt
  executing : ∀ ex : Execution, u.executing = some ex → ex.slot.index = index →
    ex.turn ≤ ex.turns ∧ ∃ x : Passage,
      x.AtWork (u.subject group w.id) p (u.turnsAt index) done log ex.turn now

namespace Tells

/-- Time may pass without anything happening. -/
theorem mono (tells : u.Tells p group index w now done log) {later : Nat} (le : now ≤ later) :
    u.Tells p group index w later done log where
  journey := tells.journey
  past y member := (tells.past y member).trans le
  resident := tells.resident
  behind stage slot held here := by
    obtain ⟨produced, told⟩ := tells.behind stage slot held here
    exact ⟨produced.trans le, told⟩
  executing ex working here := by
    obtain ⟨turn, x, inOrder, ⟨begun, late, requests, ascending⟩, made, fresh, told⟩ :=
      tells.executing ex working here
    refine ⟨turn, x, inOrder, ⟨begun, late.trans le, fun cycle member => ?_, ascending⟩, made,
      fresh, told⟩
    obtain ⟨after, before⟩ := requests cycle member
    exact ⟨after, before.trans le⟩

/-- A slot at the position belongs to the wavefront, and carries the instruction after those that are
written back. -/
theorem slot_eq (tells : u.Tells p group index w now done log) (sound : u.Sound)
    (member : slot ∈ u.slots) (here : slot.index = index) :
    slot.wavefront = w.id ∧ slot.pc = done.length := by
  obtain ⟨r, found, rfl, pc, -⟩ := tells.resident
  obtain ⟨r', found', wavefront, pc', -⟩ := sound.carried slot member
  rw [here, found] at found'
  cases found'
  exact ⟨wavefront, pc'.trans pc⟩

/-- The execute stage takes a slot up, or has done so before. -/
theorem takenUp (tells : u.Tells p group index w now done log) (early : now < cycle)
    {ex : Execution} (working : u.atWork cycle = some ex) (here : ex.slot.index = index) :
    let s := u.subject group w.id
    ex.turn ≤ ex.turns ∧
      ∃ x : Passage, x.InOrder (p.requestsAt (u.turnsAt index) done.length) .read ∧
        x.read < x.begun ∧ x.begun ≤ cycle ∧
        (∀ n ∈ x.requests, x.begun ≤ n ∧ n < cycle) ∧ x.requests.Pairwise (· < ·) ∧
        x.requests.length = p.requestsAt ex.turn done.length ∧ (∀ y ∈ done, y.write < x.schedule) ∧
        log ++ ((u.taken .execute).toList.map fun slot =>
            s.consumes cycle .execute slot.producedAt) =
          Passage.tale s p.length done ++ (x.eventsTo s .read ++ x.work s) := by
  intro s
  unfold atWork at working
  split at working
  next slot taken =>
    cases working
    have held : (u.latches.get .read).current = some slot :=
      (Option.ite_none_right_eq_some.mp taken).2
    obtain ⟨produced, x, inOrder, handed, fresh, rfl⟩ := tells.behind .read slot held here
    have read : x.read = slot.producedAt := handed
    refine ⟨Nat.zero_le _, { x with begun := cycle, requests := [] }, inOrder.withWork _ _, ?_,
      Nat.le_refl _, nofun, .nil, ?_, fresh, ?_⟩
    · show x.read < cycle
      omega
    · simp [SyntheticProgram.requestsAt]
    · rw [taken, List.append_assoc, Option.toList_some, List.map_singleton, ← read]
      rfl
  next untaken =>
    obtain ⟨turn, x, inOrder, ⟨begun, late, requests, ascending⟩, made, fresh, rfl⟩ :=
      tells.executing ex working here
    refine ⟨turn, x, inOrder, begun, by omega, fun n member => ?_, ascending, made, fresh, ?_⟩
    · obtain ⟨after, before⟩ := requests n member
      exact ⟨after, by omega⟩
    · rw [untaken, Option.toList_none, List.map_nil, List.append_nil]

/-- The execute stage tells of a request in each turn of a load or a store. -/
theorem turned (tells : u.Tells p group index w now done log) (sound : u.Sound)
    (follows : u.Follows p) (early : now < cycle) {ex : Execution}
    (working : u.atWork cycle = some ex) (here : ex.slot.index = index) :
    let a := u.asked p memory cycle
    let s := u.subject group w.id
    (ex.advance a.ready).turn ≤ ex.turns ∧ ∃ x : Passage,
      x.AtWork s p (u.turnsAt index) done
        (log ++ (((u.taken .execute).toList.map fun slot =>
          s.consumes cycle .execute slot.producedAt) ++
          if a.ready.isSome then [s.event cycle .execute .memoryIssue] else []))
        (ex.advance a.ready).turn cycle := by
  intro a s
  obtain ⟨bound, x, inOrder, begun, late, requests, ascending, made, fresh, told⟩ :=
    tells.takenUp early working here
  obtain ⟨-, pc⟩ := tells.slot_eq sound (mem_slots_of_atWork working) here
  have asks : a.ready.isSome = (ex.hasTurn && p.accesses done.length) := by
    rw [ready_asked sound follows, working, Option.any_some, pc]
  have underway : x.Underway cycle :=
    ⟨begun, late, fun n member => ⟨(requests n member).1, (requests n member).2.le⟩, ascending⟩
  rw [← List.append_assoc, told, asks]
  cases more : ex.hasTurn with
  | false =>
      rw [Execution.advance, more]
      exact ⟨bound, x, inOrder, underway, made, fresh, by simp [s]⟩
  | true =>
      have inside : ex.turn < ex.turns := of_decide_eq_true more
      rw [Execution.advance, more]
      refine ⟨inside, ?_⟩
      cases accesses : p.accesses done.length with
      | false =>
          refine ⟨x, inOrder, underway, ?_, fresh, by simp [s]⟩
          simpa [SyntheticProgram.requestsAt, accesses] using made
      | true =>
          refine ⟨{ x with requests := x.requests ++ [cycle] }, inOrder.withWork _ _,
            ⟨begun, late, fun n member => ?_, ?_⟩, ?_, fresh, ?_⟩
          · rcases List.mem_append.mp member with before | now
            · exact ⟨(requests n before).1, (requests n before).2.le⟩
            · cases List.mem_singleton.mp now
              exact ⟨late, Nat.le_refl _⟩
          · refine List.pairwise_append.mpr ⟨ascending, List.pairwise_singleton .., ?_⟩
            intro n before m now
            cases List.mem_singleton.mp now
            exact (requests n before).2
          · simpa [SyntheticProgram.requestsAt, accesses] using made
          · simp [s, Passage.work, Passage.eventsTo, Stage.all, Stage.index, Passage.reports]

section Next

variable (sound : u.Sound) (labelled : u.Labelled) (order : StageOrder)

include sound labelled

/-- What a cycle tells of the wavefront is what the stage tells that deals with its slot. -/
theorem news_of_handled (tells : u.Tells p group index w now done log)
    (handled : u.handled cycle stage = some slot) (here : slot.index = index) :
    slot.wavefront = w.id ∧
      u.news order cycle group a w.id = u.stageEvents cycle group a stage := by
  obtain ⟨r, found, rfl, -⟩ := tells.resident
  obtain ⟨r', found', wavefront⟩ := sound.resident_of_handled handled
  rw [here, found] at found'
  cases found'
  refine ⟨wavefront, ?_⟩
  rw [← wavefront]
  exact sound.news_eq labelled order handled

/-- A cycle tells nothing of the wavefront if no stage deals with a slot of it. -/
theorem news_of_unhandled (tells : u.Tells p group index w now done log)
    (others : ∀ stage slot, u.handled cycle stage = some slot → slot.index ≠ index) :
    u.news order cycle group a w.id = [] := by
  obtain ⟨r, found, rfl, -⟩ := tells.resident
  refine news_eq_nil order fun stage slot handled same => ?_
  obtain ⟨r', found', wavefront⟩ := sound.resident_of_handled handled
  exact others stage slot handled (labelled _ _ _ _ found' found (by rw [← wavefront, same]))

/-- The schedule stage tells of an instruction that it issues. -/
theorem issued (tells : u.Tells p group index w now done log) (early : now < cycle)
    (issued : u.issued cycle = some slot) (here : slot.index = index) :
    slot.producedAt ≤ cycle ∧ ∃ x : Passage,
      x.Reaches (u.subject group w.id) p (u.turnsAt index) done
        (log ++ u.news order cycle group a w.id) .schedule slot.producedAt := by
  have handled : u.handled cycle .schedule = some slot := issued
  obtain ⟨wavefront, news⟩ := tells.news_of_handled (a := a) sound labelled order handled here
  obtain ⟨r, found, -, -, -, ready⟩ := tells.resident
  obtain ⟨start, r', issue, found', rfl⟩ := issued_eq_some_iff.mp issued
  obtain ⟨r'', found'', free, -⟩ := issuable_of_issue issue
  cases found'.symm.trans found''
  cases (show start = index from here)
  cases found.symm.trans found'
  refine ⟨Nat.le_refl _, { schedule := cycle }, fun earlier before => ?_, rfl, fun y member =>
    Nat.lt_of_le_of_lt (tells.past y member) early, ?_⟩
  · cases earlier <;> first | exact trivial | exact absurd before (by decide)
  · rw [news, stageEvents_schedule issued, wavefront, ready free]
    rfl

/-- A stage of a single cycle tells of an instruction that it takes and hands on. -/
theorem crossed (tells : u.Tells p group index w now done log) (early : now < cycle)
    (single : stage = .schedule ∨ stage = .fetch ∨ stage = .decode)
    (given : u.given cycle a stage.reader = some slot) (here : slot.index = index) :
    slot.producedAt ≤ cycle ∧ ∃ x : Passage,
      x.Reaches (u.subject group w.id) p (u.turnsAt index) done
        (log ++ u.news order cycle group a w.id) stage.reader slot.producedAt := by
  obtain ⟨old, taken, held, index_eq, produced⟩ := taken_of_given single given
  have handing : stage ≠ .write := by rcases single with rfl | rfl | rfl <;> decide
  have here : old.index = index := index_eq ▸ here
  have handled : u.handled cycle stage.reader = some old := handled_of_taken taken
  obtain ⟨wavefront, news⟩ := tells.news_of_handled (a := a) sound labelled order handled here
  obtain ⟨before, x, inOrder, handed, fresh, rfl⟩ := tells.behind stage old held here
  obtain ⟨onTime, reports⟩ := x.reach_single (u.subject group w.id) cycle
    (p.requestsAt (u.turnsAt index) done.length) single
  refine ⟨produced.le, x.reach stage.reader cycle, inOrder.reach handing ?_, ?_, ?_, ?_⟩
  · rw [onTime, handed]
    omega
  · rw [Passage.handed_reach, produced]
  · rcases single with rfl | rfl | rfl <;> exact fresh
  · rw [news, stageEvents_single single taken, wavefront, Passage.eventsTo_reader handing,
      Passage.eventsTo_reach, reports, handed, List.append_assoc]
    rcases single with rfl | rfl | rfl <;> decide

variable (follows : u.Follows p)

include follows

/-- The execute stage tells of what it does to an instruction. -/
theorem news_execute (tells : u.Tells p group index w now done log) (early : now < cycle)
    {ex : Execution} (working : u.atWork cycle = some ex) (here : ex.slot.index = index) :
    let a := u.asked p memory cycle
    let s := u.subject group w.id
    (ex.advance a.ready).turn ≤ (ex.advance a.ready).turns ∧
      ∃ (x : Passage) (work : List TraceEvent),
        x.AtWork s p (u.turnsAt index) done (log ++ work) (ex.advance a.ready).turn cycle ∧
        u.news order cycle group a w.id = work ++
          if (ex.advance a.ready).isOver cycle then [s.event cycle .execute .produce] else [] := by
  intro a s
  have handled : u.handled cycle .execute = some ex.slot := congrArg (Option.map _) working
  obtain ⟨wavefront, news⟩ := tells.news_of_handled (a := a) sound labelled order handled here
  obtain ⟨bound, x, atWork⟩ := tells.turned memory sound follows early working here
  rw [Execution.advance_turns]
  refine ⟨bound, x, _, atWork, ?_⟩
  rw [news, stageEvents_execute working, wavefront]

/-- The execute stage tells of an instruction that it hands on. -/
theorem emitted (tells : u.Tells p group index w now done log) (early : now < cycle)
    (given : u.given cycle (u.asked p memory cycle) .execute = some slot)
    (here : slot.index = index) :
    slot.producedAt ≤ cycle ∧ ∃ x : Passage,
      x.Reaches (u.subject group w.id) p (u.turnsAt index) done
        (log ++ u.news order cycle group (u.asked p memory cycle) w.id) .execute
        slot.producedAt := by
  obtain ⟨ex', leaves, rfl⟩ := Option.map_eq_some_iff.mp given
  obtain ⟨worked, leaving⟩ := Option.filter_eq_some_iff.mp leaves
  obtain ⟨ex, working, rfl⟩ := Option.map_eq_some_iff.mp worked
  have here : ex.slot.index = index := by simpa using here
  obtain ⟨bound, x, work, ⟨inOrder, underway, made, fresh, told⟩, news⟩ :=
    tells.news_execute memory sound labelled order follows early working here
  have turns := (follows.of_atWork working).2
  -- All turns are over, so that all requests have been made.
  have last : (ex.advance (u.asked p memory cycle).ready).turn = u.turnsAt index := by
    simp only [Execution.isOver, Execution.hasTurn, Bool.and_eq_true, Bool.not_eq_true',
      decide_eq_false_iff_not] at leaving
    rw [← here, ← turns, ← ex.advance_turns (u.asked p memory cycle).ready]
    omega
  have onTime : (x.reach .execute cycle).OnTime
      (p.requestsAt (u.turnsAt index) done.length) .execute := ⟨underway, last ▸ made⟩
  refine ⟨Nat.le_refl _, x.reach .execute cycle, inOrder.reach (by decide) onTime,
    Passage.handed_reach, fresh, ?_⟩
  have next : (x.reach .execute cycle).eventsTo (u.subject group w.id) .execute = _ :=
    Passage.eventsTo_reader (by decide : Stage.read ≠ .write)
  rw [news, if_pos leaving, ← List.append_assoc, told, next, Passage.eventsTo_reach (by decide),
    List.append_assoc, List.append_assoc]
  rfl

/-- The execute stage tells of an instruction that it keeps. -/
theorem kept (tells : u.Tells p group index w now done log) (early : now < cycle)
    {ex : Execution} (working : (u.next cycle (u.asked p memory cycle)).executing = some ex)
    (here : ex.slot.index = index) :
    ex.turn ≤ ex.turns ∧ ∃ x : Passage,
      x.AtWork (u.subject group w.id) p (u.turnsAt index) done
        (log ++ u.news order cycle group (u.asked p memory cycle) w.id) ex.turn cycle := by
  obtain ⟨worked, stays⟩ := Option.filter_eq_some_iff.mp working
  obtain ⟨before, atWork, rfl⟩ := Option.map_eq_some_iff.mp worked
  have here : before.slot.index = index := by simpa using here
  obtain ⟨bound, x, work, told, news⟩ :=
    tells.news_execute memory sound labelled order follows early atWork here
  have goes_on := (Bool.not_eq_true' _).mp stays
  rw [goes_on, if_neg Bool.false_ne_true, List.append_nil] at news
  exact ⟨bound, x, news ▸ told⟩

/-- What is told of an instruction behind a stage reaches as far as that stage. -/
theorem behind_next (tells : u.Tells p group index w now done log) (early : now < cycle)
    (held : ((u.next cycle (u.asked p memory cycle)).latches.get stage).current = some slot)
    (here : slot.index = index) :
    slot.producedAt ≤ cycle ∧ ∃ x : Passage,
      x.Reaches (u.subject group w.id) p (u.turnsAt index) done
        (log ++ u.news order cycle group (u.asked p memory cycle) w.id) stage
        slot.producedAt := by
  have latch : (u.nextLatch cycle (u.asked p memory cycle) stage).current = some slot := by
    cases stage <;> first | exact held | cases held
  rcases Option.or_eq_some_iff.mp latch with given | ⟨-, left⟩
  · cases stage with
    | schedule => exact tells.issued sound labelled order early given here
    | fetch => exact tells.crossed sound labelled order early (.inl rfl) given here
    | decode => exact tells.crossed sound labelled order early (.inr (.inl rfl)) given here
    | read => exact tells.crossed sound labelled order early (.inr (.inr rfl)) given here
    | execute => exact tells.emitted memory sound labelled order follows early given here
    | write => cases given
  · split at left
    next => cases left
    next untaken =>
      rw [Option.isSome_iff_ne_none, Decidable.not_not] at untaken
      obtain ⟨produced, told⟩ := tells.behind stage slot left here
      have nothing : u.news order cycle group (u.asked p memory cycle) w.id = [] :=
        tells.news_of_unhandled sound labelled order fun other new handled =>
          here ▸ sound.handled_ne_of_stays left untaken handled
      rw [nothing, List.append_nil]
      exact ⟨produced.trans early.le, told⟩

/-- A cycle in which no instruction of the wavefront is written back. -/
theorem unwritten (tells : u.Tells p group index w now done log) (early : now < cycle)
    (untaken : ∀ gone, u.taken .write = some gone → gone.index ≠ index) :
    (u.next cycle (u.asked p memory cycle)).Tells p group index w cycle done
      (log ++ u.news order cycle group (u.asked p memory cycle) w.id) where
  journey := by
    rw [turnsAt_next]
    exact tells.journey
  past y member := (tells.past y member).trans early.le
  behind stage slot held here := by
    rw [turnsAt_next]
    exact tells.behind_next memory sound labelled order follows early held here
  executing ex working here := by
    rw [turnsAt_next]
    exact tells.kept memory sound labelled order follows early working here
  resident := by
    obtain ⟨r, found, wavefront, pc, retired, ready⟩ := tells.resident
    rw [getElem?_next, found, Option.map_some]
    by_cases isNew : ∃ new, u.issued cycle = some new ∧ new.index = index
    · obtain ⟨new, issued, rfl⟩ := isNew
      rw [nextResident_of_issued issued]
      exact ⟨_, rfl, wavefront, pc, retired, nofun⟩
    · have unissued : ∀ new, u.issued cycle = some new → new.index ≠ index :=
        fun new issued same => isNew ⟨new, issued, same⟩
      rw [nextResident_of_ne unissued untaken]
      refine ⟨r, rfl, wavefront, pc, retired, fun free => ?_⟩
      -- A wavefront with nothing in flight has no slot that a stage could deal with.
      have nothing : u.news order cycle group (u.asked p memory cycle) w.id = [] :=
        tells.news_of_unhandled sound labelled order fun stage slot handled same => by
          by_cases first : stage = .schedule
          · subst first
            exact unissued slot handled same
          · obtain ⟨r', found', -, -, inFlight, -⟩ :=
              sound.carried slot (mem_slots_of_due (due_of_handled handled first))
            rw [same, found] at found'
            cases found'
            cases free.symm.trans inFlight
      rw [nothing, List.append_nil]
      exact ready free

/-- The write stage completes what is told of an instruction. -/
theorem news_write (tells : u.Tells p group index w now done log) (early : now < cycle)
    (kept : .end ∉ p.kinds) {gone : Slot} (taken : u.taken .write = some gone)
    (here : gone.index = index) :
    let a := u.asked p memory cycle
    done.length < p.length ∧ a.retired = (done.length + 1 == p.length) ∧
      ∃ x : Passage, x.write = cycle ∧ Journey p (u.turnsAt index) (done ++ [x]) ∧
        log ++ u.news order cycle group a w.id =
          Passage.tale (u.subject group w.id) p.length (done ++ [x]) := by
  intro a
  have held : (u.latches.get .execute).current = some gone := u.taken_write ▸ taken
  have handled : u.handled cycle .write = some gone := taken
  obtain ⟨produced, x, inOrder, handed, fresh, told⟩ := tells.behind .execute gone held here
  obtain ⟨wavefront, news⟩ := tells.news_of_handled (a := a) sound labelled order handled here
  obtain ⟨-, position⟩ := tells.slot_eq sound (mem_slots_of_taken taken) here
  obtain ⟨r, found, -, pc, -⟩ := tells.resident
  obtain ⟨r', found', -, -, -, active⟩ := sound.carried gone (mem_slots_of_taken taken)
  rw [here, found] at found'
  cases found'
  have inside : done.length < p.length := pc ▸ follows.bounded index r found active
  have last : a.retired = (done.length + 1 == p.length) := by
    rw [retired_asked sound follows taken, position, Bool.eq_iff_iff, beq_iff_eq, beq_iff_eq,
      p.kind_eq_end_iff kept]
    simp only [SyntheticProgram.length] at inside ⊢
    omega
  have execute : x.execute = gone.producedAt := handed
  refine ⟨inside, last, x.reach .write cycle, rfl,
    tells.journey.append (inOrder.reach (by decide) ?_) fresh, ?_⟩
  · show x.execute < cycle
    omega
  · rw [news, stageEvents_write taken, wavefront, last, ← execute, told, Passage.tale_append,
      Passage.events_eq, Passage.eventsTo_reach (by decide), List.append_assoc]
    rfl

/-- A cycle in which an instruction of the wavefront is written back adds its passage. -/
theorem written (tells : u.Tells p group index w now done log) (early : now < cycle)
    (kept : .end ∉ p.kinds) {gone : Slot} (taken : u.taken .write = some gone)
    (here : gone.index = index) :
    ∃ x, (u.next cycle (u.asked p memory cycle)).Tells p group index w cycle (done ++ [x])
      (log ++ u.news order cycle group (u.asked p memory cycle) w.id) := by
  obtain ⟨inside, last, x, write, journey, told⟩ :=
    tells.news_write memory sound labelled order follows early kept taken here
  have gone_next : ∀ slot ∈ (u.next cycle (u.asked p memory cycle)).slots, slot.index ≠ index :=
    fun slot member same => sound.taken_ne_next taken member (here.trans same.symm)
  refine ⟨x, by rwa [turnsAt_next], fun y member => ?_, ?_, fun stage slot held same => ?_,
    fun ex working same => ?_⟩
  · rcases List.mem_append.mp member with before | now
    · exact (tells.past y before).trans early.le
    · cases List.mem_singleton.mp now
      exact write.le
  · have unissued : ∀ new, u.issued cycle = some new → new.index ≠ gone.index :=
      fun new issued => sound.issued_ne issued (mem_slots_of_taken taken)
    obtain ⟨r, found, is, -, retired, -⟩ := tells.resident
    obtain ⟨-, position⟩ := tells.slot_eq sound (mem_slots_of_taken taken) here
    rw [getElem?_next, found, Option.map_some, ← here, nextResident_of_taken taken unissued, last]
    refine ⟨_, rfl, is, by simp [position], fun retires => ?_, fun _ => told⟩
    rw [Bool.or_eq_true, beq_iff_eq] at retires
    rw [List.length_append, List.length_singleton]
    exact retires.resolve_left fun already => absurd (retired already) inside.ne
  · exact absurd same (gone_next slot (mem_slots_of_due (due_of_current held)))
  · exact absurd same (gone_next ex.slot (mem_slots_of_due (due_of_executing working)))

/-- In every cycle the unit tells what happens to the wavefront. -/
theorem next (tells : u.Tells p group index w now done log) (early : now < cycle)
    (kept : .end ∉ p.kinds) :
    ∃ done, (u.next cycle (u.asked p memory cycle)).Tells p group index w cycle done
      (log ++ u.news order cycle group (u.asked p memory cycle) w.id) := by
  by_cases isWritten : ∃ gone, u.taken .write = some gone ∧ gone.index = index
  · obtain ⟨gone, taken, here⟩ := isWritten
    obtain ⟨x, tells'⟩ := tells.written memory sound labelled order follows early kept taken here
    exact ⟨_, tells'⟩
  · exact ⟨done, tells.unwritten memory sound labelled order follows early fun gone taken same =>
      isWritten ⟨gone, taken, same⟩⟩

end Next

/-- When a unit is drained everything has been told of its wavefronts. -/
theorem whole (tells : u.Tells p group index w now done log) (sound : u.Sound)
    (drained : u.isDrained = true) :
    done.length = p.length ∧ log = Passage.tale (u.subject group w.id) p.length done := by
  obtain ⟨r, found, -, -, whole, ready⟩ := tells.resident
  obtain ⟨empty, retired⟩ := sound.isDrained_iff.mp drained
  obtain ⟨inside, rfl⟩ := Array.getElem?_eq_some_iff.mp found
  refine ⟨whole (Array.all_eq_true.mp retired index inside), ready ?_⟩
  apply eq_false_of_ne_true
  intro inFlight
  obtain ⟨slot, member, -⟩ := sound.flagged index _ found inFlight
  rw [empty] at member
  cases member

end Tells

end Tells

end ComputeUnit

end Accelerator
