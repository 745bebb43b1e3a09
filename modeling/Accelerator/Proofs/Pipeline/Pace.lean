import Accelerator.Proofs.Device.Accounts

/-!
# The pace of a unit

How fast a unit gets on with a program depends on little of it when every request takes the same
time: on how far each wavefront has come, where its instructions are, and how long the execute stage
still has to wait. The *outline* of a unit is all that, seen from the current cycle; which unit it
is, what the cycle is called and which items the wavefronts stand for is not in it. A cycle changes
the outline in a way that depends on the outline alone (`Follows.outline_next`), so two units of the
same outline finish after the same number of cycles.
-/

namespace Accelerator

/-! ## Outlines -/

/-- The wavefront, without its place in the launch. -/
def Wavefront.outline (w : Wavefront) : Wavefront := { items := w.items, id := 0 }

/-- The slot, without its past. -/
def Slot.outline (slot : Slot) : Slot :=
  { wavefront := 0, index := slot.index, pc := slot.pc, producedAt := 0 }

/-- The execution as it is seen in a cycle, which is counted as cycle 0. -/
def Execution.since (ex : Execution) (now : Nat) : Execution :=
  { ex with slot := ex.slot.outline, readyAt := ex.readyAt - now }

/-- The wavefront and how far it has come. -/
def Resident.outline (r : Resident) : Resident := { r with wavefront := r.wavefront.outline }

/-- What is committed. -/
def Latch.outline (l : Latch Slot) : Latch Slot := { current := l.current.map Slot.outline }

def Latches.outline (l : Latches Slot) : Latches Slot where
  schedule := l.schedule.outline
  fetch := l.fetch.outline
  decode := l.decode.outline
  read := l.read.outline
  execute := l.execute.outline

namespace ComputeUnit

/-- What the pace of a unit depends on, as it is seen in a cycle, which is counted as cycle 0. -/
def outline (u : ComputeUnit) (now : Nat) : ComputeUnit :=
  { create 0 0 u.lanes.length with
    wavefronts := u.wavefronts.map Resident.outline
    cursor := u.cursor
    latches := u.latches.outline
    executing := u.executing.map (·.since now) }

/-- The answers of a cycle to a unit that is known in outline only, when every request takes
`latency` cycles. What the instructions are is not in the outline. -/
def paced (u : ComputeUnit) (p : SyntheticProgram) (latency : Nat) : Answers where
  fetched := default
  decoded := default
  ready := if (u.atWork 1).any fun ex => ex.hasTurn && p.accesses ex.slot.pc then some (1 + latency)
    else none
  retired := (u.taken .write).any fun slot => (p.instruction slot.pc).kind == .end

/-- The outline after another cycle. -/
def stride (p : SyntheticProgram) (latency : Nat) (u : ComputeUnit) : ComputeUnit :=
  (u.next 1 (u.paced p latency)).outline 1

/-- What a unit looks like that has just been given a group with these wavefronts. -/
def opening (lanes : Nat) (wavefronts : List Wavefront) : ComputeUnit :=
  ((create 0 0 lanes).loaded 0 wavefronts).outline 0

/-- The unit has work for exactly `n` more cycles. -/
def DrainsIn (p : SyntheticProgram) (latency : Nat) : (n : Nat) → ComputeUnit → Prop
  | 0, u => u.isDrained = true
  | n + 1, u => u.isDrained = false ∧ (u.stride p latency).DrainsIn p latency n

instance decidableDrainsIn (p : SyntheticProgram) (latency : Nat) :
    (n : Nat) → (u : ComputeUnit) → Decidable (u.DrainsIn p latency n)
  | 0, u => inferInstanceAs (Decidable (u.isDrained = true))
  | n + 1, u =>
    have := decidableDrainsIn p latency n (u.stride p latency)
    inferInstanceAs (Decidable (u.isDrained = false ∧ (u.stride p latency).DrainsIn p latency n))

end ComputeUnit

/-! ## Parts of a cycle, in outline -/

@[simp] theorem Slot.outline_outline (slot : Slot) : slot.outline.outline = slot.outline := rfl

@[simp] theorem Slot.outline_index (slot : Slot) : slot.outline.index = slot.index := rfl

@[simp] theorem Latches.get_outline (l : Latches Slot) (stage : Stage) :
    l.outline.get stage = (l.get stage).outline := by
  cases stage <;> rfl

namespace Execution

@[simp] theorem hasTurn_since (ex : Execution) (now : Nat) :
    (ex.since now).hasTurn = ex.hasTurn := rfl

theorem since_since (ex : Execution) (now : Nat) : (ex.since now).since 1 = ex.since (now + 1) := by
  simp [since, Nat.sub_sub]

theorem isOver_since (ex : Execution) (now : Nat) :
    (ex.since now).isOver 1 = ex.isOver (now + 1) := by
  have ready : (ex.since now).readyAt ≤ 1 ↔ ex.readyAt ≤ now + 1 := by
    show ex.readyAt - now ≤ 1 ↔ _
    omega
  rw [isOver, isOver, hasTurn_since, decide_eq_decide.mpr ready]

/-- A turn seen from another cycle. -/
theorem advance_since (ex : Execution) (now : Nat) (ready : Option Nat) :
    (ex.since now).advance ready = (ex.advance (ready.map (now + ·))).since now := by
  unfold advance
  rw [hasTurn_since]
  split
  · cases ready with
    | none => simp [since]
    | some cycle =>
        have later : max (ex.readyAt - now) cycle = max ex.readyAt (now + cycle) - now := by omega
        simp [since, later]
  · rfl

end Execution

namespace ComputeUnit

variable {u : ComputeUnit} {now : Nat}

@[simp] theorem lanes_outline : (u.outline now).lanes.length = u.lanes.length := by
  simp [outline, create]

@[simp] theorem getElem?_outline (index : Nat) :
    (u.outline now).wavefronts[index]? = u.wavefronts[index]?.map Resident.outline := by
  simp [outline]

@[simp] theorem size_outline : (u.outline now).wavefronts.size = u.wavefronts.size := by
  simp [outline]

@[simp] theorem isOccupied_outline (stage : Stage) :
    (u.outline now).latches.isOccupied stage = u.latches.isOccupied stage := by
  simp [outline, Latches.isOccupied, Latch.isOccupied, Latch.outline]

@[simp] theorem current_outline (u : ComputeUnit) (now : Nat) (stage : Stage) :
    ((u.outline now).latches.get stage).current =
      (u.latches.get stage).current.map Slot.outline := by
  simp [outline, Latch.outline]

@[simp] theorem executing_outline :
    (u.outline now).executing = u.executing.map (·.since now) := rfl

/-- Nothing but the committed state and the wavefronts say whether a unit has finished. -/
theorem Sound.isDrained_outline (sound : u.Sound) (now : Nat) :
    (u.outline now).isDrained = u.isDrained := by
  have latches : (u.outline now).latches.isEmpty = u.latches.isEmpty := by
    have settled : ∀ stage, (u.latches.get stage).next = none := sound.settled
    simp [outline, Latches.isEmpty, Latch.isEmpty, Latch.outline, settled]
  have retired : (u.outline now).wavefronts.all (·.retired) = u.wavefronts.all (·.retired) := by
    simp [outline, Resident.outline, Function.comp_def]
  rw [isDrained, isDrained, latches, retired, executing_outline, Option.isNone_map]

theorem nextIssuable_outline : (u.outline now).nextIssuable = u.nextIssuable := by
  have issuable : ∀ index, (u.outline now).isIssuableAt index = u.isIssuableAt index := by
    intro index
    rw [isIssuableAt, isIssuableAt, getElem?_outline]
    rcases u.wavefronts[index]? with _ | r <;> rfl
  have search : ∀ n index, (u.outline now).issuableFrom n index = u.issuableFrom n index := by
    intro n
    induction n with
    | zero => exact fun _ => rfl
    | succ n ih =>
        intro index
        rw [issuableFrom, issuableFrom, issuable, size_outline, ih]
  rw [nextIssuable, nextIssuable, search, size_outline]
  rfl

@[simp] theorem plan_outline : (u.outline now).plan = u.plan := by
  simp [plan, nextIssuable_outline]

@[simp] theorem taken_outline (stage : Stage) :
    (u.outline now).taken stage = (u.taken stage).map Slot.outline := by
  have schedule := u.current_outline now .schedule
  have fetch := u.current_outline now .fetch
  have decode := u.current_outline now .decode
  have read := u.current_outline now .read
  have execute := u.current_outline now .execute
  simp only [Latches.get] at schedule fetch decode read execute
  cases stage <;> simp only [taken, plan_outline, schedule, fetch, decode, read, execute] <;>
    first | rfl | (split <;> rfl)

theorem atWork_outline : (u.outline now).atWork 1 = (u.atWork (now + 1)).map (·.since now) := by
  unfold atWork
  rw [taken_outline]
  rcases taken : u.taken .execute with _ | slot
  · rfl
  · have turns : ((u.outline now).wavefront? slot.outline).bind
        (·.subwavefrontCount? (u.outline now).lanes.length) =
          (u.wavefront? slot).bind (·.subwavefrontCount? u.lanes.length) := by
      simp only [wavefront?, Slot.outline_index, getElem?_outline, lanes_outline, Option.map_map]
      rcases u.wavefronts[slot.index]? with _ | r <;> rfl
    simp only [Option.map_some, turns]
    simp [Execution.since]

/-- The execution at work after its turn, when the memory answers alike. -/
theorem worked_outline {a b : Answers} (ready : a.ready = b.ready.map (now + ·)) :
    (u.outline now).worked 1 b = (u.worked (now + 1) a).map (·.since now) := by
  rw [worked, worked, atWork_outline, Option.map_map, Option.map_map, ready]
  simp only [Function.comp_def, Execution.advance_since]

theorem issued_outline (u : ComputeUnit) (now : Nat) :
    ((u.outline now).issued 1).map Slot.outline = (u.issued (now + 1)).map Slot.outline := by
  rw [issued, issued, plan_outline]
  rcases u.plan.issue with _ | index
  · rfl
  · simp only [Option.bind_some, getElem?_outline, Option.map_map]
    rcases u.wavefronts[index]? with _ | r <;> rfl

/-- In outline stages hand on what they take. -/
theorem given_outline (u : ComputeUnit) {a b : Answers} (ready : a.ready = b.ready.map (now + ·))
    (stage : Stage) :
    ((u.outline now).given 1 b stage).map Slot.outline =
      (u.given (now + 1) a stage).map Slot.outline := by
  cases stage with
  | schedule => exact u.issued_outline now
  | write => rfl
  | execute =>
      rw [given, given, worked_outline ready]
      rcases u.worked (now + 1) a with _ | ex
      · rfl
      · simp only [Option.map_some, Option.filter_some, Execution.isOver_since]
        split <;> rfl
  | _ =>
      simp only [given, taken_outline, Option.map_map]
      rfl

theorem nextLatch_outline (u : ComputeUnit) {a b : Answers} (ready : a.ready = b.ready.map (now + ·))
    (stage : Stage) :
    ((u.outline now).nextLatch 1 b stage).outline = (u.nextLatch (now + 1) a stage).outline := by
  have given := u.given_outline ready stage
  have left : (if ((u.outline now).taken stage.reader).isSome then none
      else ((u.outline now).latches.get stage).current).map Slot.outline =
        (if (u.taken stage.reader).isSome then none
          else (u.latches.get stage).current).map Slot.outline := by
    rw [taken_outline, Option.isSome_map, current_outline]
    split
    · rfl
    · rw [Option.map_map]
      rfl
  simp only [nextLatch, Latch.outline, Option.map_or, given, left]

theorem nextCursor_outline : (u.outline now).nextCursor = u.nextCursor := by
  rw [nextCursor, nextCursor, plan_outline, size_outline]
  rfl

/-- A wavefront goes on alike if it retires alike. -/
theorem nextResident_outline {a b : Answers}
    (retired : ∀ slot, u.taken .write = some slot → a.retired = b.retired) (index : Nat)
    (r : Resident) :
    ((u.outline now).nextResident 1 b index r.outline).outline =
      (u.nextResident (now + 1) a index r).outline := by
  have issued : ((u.outline now).issued 1).any (·.index == index) =
      (u.issued (now + 1)).any (·.index == index) := by
    have same := congrArg (Option.any (·.index == index)) (u.issued_outline now)
    simpa only [Option.any_map, Function.comp_def, Slot.outline_index] using same
  rw [nextResident, nextResident, issued, taken_outline]
  split
  · rfl
  · rcases taken : u.taken .write with _ | slot
    · rfl
    · rw [Option.map_some, Option.filter_some, Option.filter_some, Slot.outline_index,
        retired slot taken]
      by_cases here : (slot.index == index) = true
      · rw [if_pos here, if_pos here]
        rfl
      · rw [if_neg here, if_neg here]
        rfl

/-- A cycle changes the outline of a unit in a way that depends on the outline and on the answers. -/
theorem outline_next_of_alike {a b : Answers} (ready : a.ready = b.ready.map (now + ·))
    (retired : ∀ slot, u.taken .write = some slot → a.retired = b.retired) :
    (u.next (now + 1) a).outline (now + 1) = ((u.outline now).next 1 b).outline 1 := by
  have lanes : (u.next (now + 1) a).lanes.length = ((u.outline now).next 1 b).lanes.length := by
    show (u.nextLanes _).length = ((u.outline now).nextLanes _).length
    rw [nextLanes_length, nextLanes_length, lanes_outline]
  have wavefronts : (u.next (now + 1) a).wavefronts.map Resident.outline =
      ((u.outline now).next 1 b).wavefronts.map Resident.outline := by
    apply Array.ext_getElem?
    intro index
    rw [Array.getElem?_map, Array.getElem?_map, getElem?_next, getElem?_next, getElem?_outline]
    rcases u.wavefronts[index]? with _ | r
    · rfl
    · exact congrArg some (nextResident_outline retired index r).symm
  have cursor : (u.next (now + 1) a).cursor = ((u.outline now).next 1 b).cursor :=
    nextCursor_outline.symm
  have latches : (u.next (now + 1) a).latches.outline =
      ((u.outline now).next 1 b).latches.outline := by
    have latch := u.nextLatch_outline ready
    simp only [Latches.outline, next, latch]
  have executing : (u.next (now + 1) a).executing.map (·.since (now + 1)) =
      ((u.outline now).next 1 b).executing.map (·.since 1) := by
    show ((u.worked _ a).filter _).map _ = (((u.outline now).worked 1 b).filter _).map _
    rw [worked_outline ready]
    rcases u.worked (now + 1) a with _ | ex
    · rfl
    · simp only [Option.map_some, Option.filter_some, Execution.isOver_since]
      split
      · exact congrArg some (ex.since_since now).symm
      · rfl
  rw [outline, outline, lanes, wavefronts, cursor, latches, executing]

/-! ## Groups, in outline -/

/-- Whatever a unit has done before, a new group begins on it as on any other unit. -/
theorem Sound.outline_loaded (sound : u.Sound) (free : u.group = none) (group now : Nat)
    (wavefronts : List Wavefront) :
    (u.loaded group wavefronts).outline now = opening u.lanes.length wavefronts := by
  have empty := sound.slots_eq_nil free
  simp only [slots, List.append_eq_nil_iff, Option.toList_eq_nil_iff, Option.map_eq_none_iff]
    at empty
  simp [opening, outline, loaded, ComputeUnit.create, Latches.outline, Latch.outline, empty]

/-- Groups with the same wavefronts, each in its own place, begin alike. -/
theorem opening_congr {first second : List Wavefront}
    (alike : first.map Wavefront.outline = second.map Wavefront.outline) (lanes : Nat) :
    opening lanes first = opening lanes second := by
  have residents : (first.map fun wavefront => ({ wavefront } : Resident).outline) =
      second.map fun wavefront => ({ wavefront } : Resident).outline := by
    have same := congrArg (List.map fun wavefront => ({ wavefront } : Resident)) alike
    rw [List.map_map, List.map_map] at same
    exact same
  simp only [opening, outline, loaded, List.map_toArray, List.map_map, Function.comp_def, residents]

/-! ## Cycles, in outline -/

section Asked

variable {p : SyntheticProgram} {memory : FixedLatency}

/-- When a request is ready depends on when it is made, and not on what has been asked before. -/
theorem ready_paced (sound : u.Sound) (follows : u.Follows p) :
    (u.asked p memory (now + 1)).ready =
      ((u.outline now).paced p memory.latency).ready.map (now + ·) := by
  have asks : (u.asked p memory (now + 1)).ready.isSome = _ := ready_asked sound follows
  have answer : ∀ ready, (u.asked p memory (now + 1)).ready = some ready →
      ready = now + (1 + memory.latency) := by
    intro ready given
    simp only [asked, Bench.answers, Bench.memoryCall] at given
    split at given
    · cases given
    · cases given
      show now + 1 + memory.latency = _
      omega
  have same : ((u.atWork (now + 1)).any fun ex => ex.hasTurn && p.accesses ex.slot.pc) =
      ((u.outline now).atWork 1).any fun ex => ex.hasTurn && p.accesses ex.slot.pc := by
    rw [atWork_outline, Option.any_map]
    rfl
  rw [same] at asks
  rcases given : (u.asked p memory (now + 1)).ready with _ | ready
  · rw [given, Option.isSome_none] at asks
    rw [paced, ← asks]
    rfl
  · rw [given, Option.isSome_some] at asks
    rw [paced, ← asks, answer ready given]
    rfl

theorem retired_paced (sound : u.Sound) (follows : u.Follows p) {slot : Slot}
    (taken : u.taken .write = some slot) :
    (u.asked p memory (now + 1)).retired =
      ((u.outline now).paced p memory.latency).retired := by
  rw [retired_asked sound follows taken, paced, taken_outline, taken]
  rfl

/-- What a cycle makes of a unit is known in outline as soon as the unit is. -/
theorem Follows.outline_next (follows : u.Follows p) (sound : u.Sound) :
    (u.next (now + 1) (u.asked p memory (now + 1))).outline (now + 1) =
      (u.outline now).stride p memory.latency :=
  outline_next_of_alike (ready_paced sound follows) fun _ => retired_paced sound follows

theorem Follows.drainsIn_next {n : Nat} (follows : u.Follows p) (sound : u.Sound)
    (drains : (u.outline now).DrainsIn p memory.latency (n + 1)) :
    u.isDrained = false ∧ ((u.next (now + 1) (u.asked p memory (now + 1))).outline
      (now + 1)).DrainsIn p memory.latency n := by
  rw [follows.outline_next sound, ← sound.isDrained_outline now]
  exact drains

/-- A unit that follows a program has finished after some number of cycles. -/
theorem Follows.exists_drainsIn (follows : u.Follows p) (sound : u.Sound) (kept : .end ∉ p.kinds)
    (latency now : Nat) : ∃ n, (u.outline now).DrainsIn p latency n := by
  let memory : FixedLatency := { latency }
  -- On the work that is left, and on the cycles that are still to wait while it stays the same.
  induction work : u.owed .work p using Nat.strong_induction_on generalizing u now with
  | h left less =>
  induction wait : (u.executing.map (·.readyAt - now)).getD 0 using
    Nat.strong_induction_on generalizing u now with
  | h wait sooner =>
  cases drained : u.isDrained with
  | true =>
      refine ⟨0, ?_⟩
      rw [DrainsIn, sound.isDrained_outline, drained]
  | false =>
      let next := u.next (now + 1) (u.asked p memory (now + 1))
      have paid : next.owed .work p + u.spent .work p (now + 1) (u.asked p memory (now + 1)) =
          u.owed .work p := follows.owed_next sound kept .work
      have rest : ∃ n, (next.outline (now + 1)).DrainsIn p latency n := by
        rcases Nat.eq_zero_or_pos (u.spent .work p (now + 1) (u.asked p memory (now + 1)))
          with still | moved
        · obtain ⟨ex, here, stays, waits⟩ := sound.waits drained still
          have stays : next.executing = some ex := stays
          have same : next.owed .work p = left := by omega
          refine sooner _ ?_ (follows.next sound kept) (sound.next _ _) (now + 1) same rfl
          rw [stays, ← wait, here]
          show ex.readyAt - (now + 1) < ex.readyAt - now
          omega
        · have fewer : next.owed .work p < left := by omega
          exact less _ fewer (follows.next sound kept) (sound.next _ _) (now + 1) rfl
      obtain ⟨n, drains⟩ := rest
      refine ⟨n + 1, (sound.isDrained_outline now).trans drained, ?_⟩
      have stride : next.outline (now + 1) = (u.outline now).stride p latency :=
        follows.outline_next sound
      rwa [← stride]

/-- The number of cycles that a group takes is known as soon as its wavefronts are, and there is at
least one. -/
theorem exists_drainsIn_opening {lanes : Nat} {wavefronts : List Wavefront} (kept : .end ∉ p.kinds)
    (some_lanes : 0 < lanes) (width : laneWord (max lanes 1) ≠ 0) (some_wavefronts : wavefronts ≠ [])
    (items : ∀ w ∈ wavefronts, w.items.start < w.items.stop) (latency : Nat) :
    ∃ n, (opening lanes wavefronts).DrainsIn p latency (n + 1) := by
  have sound : (create 0 0 lanes).Sound := Sound.create width
  have follows : (create 0 0 lanes).Follows p := Follows.create p some_lanes .reverse
  have loaded : ((create 0 0 lanes).loaded 0 wavefronts).Sound :=
    sound.assign ((create 0 0 lanes).assign_eq rfl 0 wavefronts)
  obtain ⟨n, drains⟩ := (follows.loaded sound rfl 0 items).exists_drainsIn loaded kept latency 0
  cases n with
  | zero =>
      obtain ⟨w, rest, rfl⟩ := List.exists_cons_of_ne_nil some_wavefronts
      rw [DrainsIn, loaded.isDrained_outline] at drains
      simp [isDrained, ComputeUnit.loaded] at drains
  | succ n => exact ⟨n, drains⟩

end Asked

end ComputeUnit

/-! ## How many steps a unit takes -/

namespace Bench

/-- From a cycle on the unit takes `steps` steps, one in each cycle, and reports with the last of
them that it has finished. -/
inductive Takes {ι μ : Type} [InstructionModel ι] [MemoryService μ] :
    Bench ι μ → (now steps : Nat) → Prop
  | last {b after : Bench ι μ} {now group : Nat}
      (done : b.step (now + 1) = .ok (.finished group, after)) : Takes b now 1
  | more {b next : Bench ι μ} {now steps : Nat} (goes : b.step (now + 1) = .ok (.running, next))
      (rest : Takes next (now + 1) steps) : Takes b now (steps + 1)

theorem Takes.unique {ι μ : Type} [InstructionModel ι] [MemoryService μ] {b : Bench ι μ}
    {now steps steps' : Nat} (first : b.Takes now steps) (second : b.Takes now steps') :
    steps = steps' := by
  induction first generalizing steps' with
  | last done =>
      cases second with
      | last => rfl
      | more goes => cases done.symm.trans goes
  | more goes _ ih =>
      cases second with
      | last done => cases goes.symm.trans done
      | more goes' rest' =>
          cases goes.symm.trans goes'
          exact congrArg (· + 1) (ih rest')

variable {b : Bench SyntheticProgram FixedLatency} {now group : Nat}

/-- What a cycle leads to, for a unit that has not finished. -/
theorem cycled_of_running {μ : Type} [MemoryService μ] {b : Bench SyntheticProgram μ}
    (running : b.unit.isDrained = false) (order : StageOrder) (cycle group : Nat) :
    (b.cycled order cycle group).unit = b.unit.next cycle (b.unit.asked b.isa b.memory cycle) ∧
      (b.cycled order cycle group).isa = b.isa ∧ (b.cycled order cycle group).updates = [] := by
  rw [cycled, running, if_neg Bool.false_ne_true, after_of_stateless SyntheticProgram.stateless]
  exact ⟨rfl, rfl, rfl⟩

/-- Nothing that is asked changes how long the memory takes. -/
theorem latency_cycled (b : Bench SyntheticProgram FixedLatency) (order : StageOrder)
    (cycle group : Nat) : (b.cycled order cycle group).memory.latency = b.memory.latency := by
  unfold cycled
  split
  · rfl
  · simp only [after, memoryCall]
    split <;> rfl

/-- A unit takes as many steps as its outline says. -/
theorem takes_of_drainsIn {n : Nat} (follows : b.unit.Follows b.isa) (sound : b.unit.Sound)
    (kept : .end ∉ b.isa.kinds) (clear : b.updates = []) (held : b.unit.group = some group)
    (drains : (b.unit.outline now).DrainsIn b.isa b.memory.latency (n + 1)) :
    b.Takes now (n + 1) := by
  induction n generalizing b now with
  | zero =>
      obtain ⟨running, drained⟩ := follows.drainsIn_next sound drains
      obtain ⟨unit, -, -⟩ := cycled_of_running running b.unit.order (now + 1) group
      have done := stepIn_eq sound clear held b.unit.order (now + 1)
      rw [progress, unit, ← (sound.next _ _).isDrained_outline (now + 1), drained] at done
      exact .last done
  | succ n ih =>
      obtain ⟨running, rest⟩ := follows.drainsIn_next sound drains
      obtain ⟨unit, isa, updates⟩ := cycled_of_running running b.unit.order (now + 1) group
      have latency := latency_cycled b b.unit.order (now + 1) group
      have goes := stepIn_eq sound clear held b.unit.order (now + 1)
      rw [progress, unit, ← (sound.next _ _).isDrained_outline (now + 1), rest.1] at goes
      refine .more goes (ih ?_ ?_ ?_ updates ((cycled_group ..).trans held) ?_)
      · rw [unit, isa]
        exact follows.next sound kept
      · rw [unit]
        exact sound.next _ _
      · rwa [isa]
      · rw [unit, isa, latency]
        exact rest

end Bench

end Accelerator
