import Accelerator.Cluster
import Accelerator.Proofs.Attempt
import Accelerator.Proofs.Memory.Hierarchy
import Accelerator.Proofs.Pipeline.Soundness

/-!
# The order of the units

Units that share a memory meet in it and nowhere else. What a unit asks in a cycle is settled
before the cycle begins, and an impartial memory answers it without regard to the other units. So
two units can trade places in the order in which a cluster visits its units (`visited_comm`), and
from cycle to cycle every order leads to the same cluster, the same finishes and the same events
(`visit_order_makes_no_difference`).

What happens in one cycle is recorded in the order of the visits. Two records are compared as
collections, without their order.
-/

namespace Accelerator

/-! ## The visit of a unit -/

namespace ComputeUnit

variable {ι : Type} [InstructionModel ι]

/-- The request that a visit makes to the memory. -/
def requested (u : ComputeUnit) (isa : ι) (cycle : Nat) : Option MemoryRequest :=
  if u.isBusy && !u.isDrained then (Bench.executeCall u cycle isa).1 else none

/-- The answers of a cycle in which the memory answers `ready`. -/
def answered (u : ComputeUnit) (isa : ι) (ready : Option Nat) : Answers where
  fetched := (Bench.fetchCall u isa).1
  decoded := (Bench.decodeCall u isa).1
  ready
  retired := (Bench.writeCall u isa).1

/-- A busy unit after the cycle of a visit, before a finished group is taken back. -/
def carriedOn (u : ComputeUnit) (isa : ι) (cycle : Nat) (ready : Option Nat) : ComputeUnit :=
  if u.isDrained then u else u.next cycle (u.answered isa ready)

/-- A unit after a visit. -/
def afterVisit (u : ComputeUnit) (isa : ι) (cycle : Nat) (ready : Option Nat) : ComputeUnit :=
  match u.group with
  | none => u
  | some _ =>
    let after := u.carriedOn isa cycle ready
    if after.isDrained then after.release.2 else after

/-- What a unit reports during a visit. -/
def reported (u : ComputeUnit) (isa : ι) (cycle : Nat) (ready : Option Nat) : List TraceEvent :=
  match u.group with
  | none => []
  | some group =>
    if u.isDrained then []
    else u.order.stages.flatMap (u.stageEvents cycle group (u.answered isa ready))

/-- The finish that a visit of the unit at a position leads to. -/
def finish (u : ComputeUnit) (isa : ι) (cycle id : Nat) (ready : Option Nat) : List Finish :=
  match u.group with
  | none => []
  | some group =>
    if (u.carriedOn isa cycle ready).isDrained then [{ cycle, unit := id, group }] else []

theorem Sound.afterVisit {u : ComputeUnit} (sound : u.Sound) (isa : ι) (cycle : Nat)
    (ready : Option Nat) : (u.afterVisit isa cycle ready).Sound := by
  have onward : (u.carriedOn isa cycle ready).Sound := by
    unfold carriedOn
    split
    · exact sound
    · exact sound.next cycle _
  unfold ComputeUnit.afterVisit
  split
  · exact sound
  · dsimp only
    split
    · exact onward.release
    · exact onward

end ComputeUnit

namespace Cluster

variable {ι μ : Type} {c : Cluster ι μ}

/-- Every unit can work. -/
def Sound (c : Cluster ι μ) : Prop :=
  ∀ (id : Nat) (u : ComputeUnit), c.units[id]? = some u → u.Sound

/-- The units that hold a work-group. -/
def busy (c : Cluster ι μ) : List Nat :=
  (List.range c.units.size).filter fun id => c.units[id]?.any ComputeUnit.isBusy

theorem Sound.create {deviceId unitCount laneCount : Nat} (width : laneWord (max laneCount 1) ≠ 0)
    (isa : ι) (memory : μ) : (Cluster.create deviceId unitCount laneCount isa memory).Sound := by
  intro id u found
  simp only [Cluster.create, List.getElem?_toArray, List.getElem?_map, Option.map_eq_some_iff]
    at found
  obtain ⟨_, -, rfl⟩ := found
  exact ComputeUnit.Sound.create width

theorem Sound.setUnit (sound : c.Sound) {u : ComputeUnit} (this : u.Sound) (id : Nat) :
    (c.setUnit id u).Sound := by
  intro other v found
  simp only [Cluster.setUnit, Array.getElem?_setIfInBounds] at found
  split at found
  · split at found
    · cases found
      exact this
    · cases found
  · exact sound other v found

/-- A cluster of which a unit is given work is still sound. -/
theorem Sound.assign (sound : c.Sound) {id group : Nat} {wavefronts : List Wavefront}
    {assigned : Cluster ι μ} (given : c.assign id group wavefronts = .ok assigned) :
    assigned.Sound := by
  rcases found : c.units[id]? with _ | u
  · rw [Cluster.assign, unit, found] at given
    cases given
  · rcases loaded : u.assign group wavefronts with error | v
    · rw [Cluster.assign, unit, found] at given
      simp only [bind, Except.bind, pure, Except.pure, loaded] at given
      cases given
    · rw [Cluster.assign, unit, found] at given
      simp only [bind, Except.bind, pure, Except.pure, loaded] at given
      cases given
      exact sound.setUnit ((sound id u found).assign loaded) id

end Cluster

namespace Sweep

variable {ι μ : Type} [InstructionModel ι] [MemoryService μ]

/-- What the visit of a unit leads to when the memory has given its reply. -/
def record (cycle : Nat) (s : Sweep ι μ) (id : Nat) (u : ComputeUnit) (reply : Option Nat × μ) :
    Sweep ι μ where
  cluster := { s.cluster.setUnit id (u.afterVisit s.cluster.isa cycle reply.1) with
    memory := reply.2 }
  finished := s.finished ++ (u.finish s.cluster.isa cycle id reply.1).toArray
  events := s.events ++ (u.reported s.cluster.isa cycle reply.1).toArray

/-- The visit of a unit, in closed form. -/
def visited (cycle : Nat) (s : Sweep ι μ) (id : Nat) : Sweep ι μ :=
  match s.cluster.units[id]? with
  | none => s
  | some u => s.record cycle id u
      (Bench.memoryCall s.cluster.memory cycle (u.requested s.cluster.isa cycle))

/-- Every unit can work, and the memory is in a state in which it is impartial. -/
structure Ready (P : μ → Prop) (s : Sweep ι μ) : Prop where
  sound : s.cluster.Sound
  memory : P s.cluster.memory

/-- The same cluster, and the same records without their order. -/
structure Same (s t : Sweep ι μ) : Prop where
  cluster : s.cluster = t.cluster
  finished : s.finished.toList.Perm t.finished.toList
  events : s.events.toList.Perm t.events.toList

variable {P : μ → Prop} {s t r : Sweep ι μ}

omit [InstructionModel ι] [MemoryService μ] in
theorem Same.refl (s : Sweep ι μ) : s.Same s := ⟨rfl, .refl _, .refl _⟩

omit [InstructionModel ι] [MemoryService μ] in
theorem Same.trans (first : s.Same t) (second : t.Same r) : s.Same r :=
  ⟨first.cluster.trans second.cluster, first.finished.trans second.finished,
    first.events.trans second.events⟩

omit [InstructionModel ι] [MemoryService μ] in
theorem Ready.of_same (ready : s.Ready P) (same : s.Same t) : t.Ready P := by
  obtain ⟨sound, memory⟩ := ready
  rw [same.cluster] at sound memory
  exact ⟨sound, memory⟩

theorem kept_memoryCall (impartial : MemoryService.Impartial μ P) {memory : μ}
    (holds : P memory) (cycle : Nat) (request : Option MemoryRequest) :
    P (Bench.memoryCall memory cycle request).2 := by
  cases request with
  | none => exact holds
  | some request => exact impartial.kept request cycle holds

theorem Ready.visited (ready : s.Ready P) (impartial : MemoryService.Impartial μ P)
    (cycle id : Nat) :
    (s.visited cycle id).Ready P := by
  unfold Sweep.visited
  split
  · exact ready
  next u found =>
    exact ⟨ready.sound.setUnit ((ready.sound id u found).afterVisit ..) id,
      kept_memoryCall impartial ready.memory ..⟩

@[simp] theorem size_visited (s : Sweep ι μ) (cycle id : Nat) :
    (s.visited cycle id).cluster.units.size = s.cluster.units.size := by
  unfold visited
  split
  · rfl
  · exact Array.size_setIfInBounds ..

/-! ## A visit is never refused -/

/-- The cycle of a unit whose instruction model has no state, in terms of the memory's answer. -/
theorem cycled_eq (stateless : InstructionModel.Stateless ι) (isa : ι) (memory : μ) (cycle : Nat)
    {u : ComputeUnit} {group : Nat} (held : u.group = some group) :
    let reply := Bench.memoryCall memory cycle (u.requested isa cycle)
    ({ unit := u, isa, memory } : Bench ι μ).cycled u.order cycle group =
      { unit := u.carriedOn isa cycle reply.1
        isa
        memory := reply.2
        events := u.reported isa cycle reply.1 } := by
  intro reply
  unfold Bench.cycled
  cases drained : u.isDrained with
  | true =>
      simp [drained, reply, ComputeUnit.carriedOn, ComputeUnit.requested, ComputeUnit.reported, held,
        Bench.memoryCall]
  | false =>
      simp [drained, reply, ComputeUnit.carriedOn, ComputeUnit.requested, ComputeUnit.reported, held,
        ComputeUnit.isBusy, Bench.after_of_stateless stateless, ComputeUnit.answered, Bench.answers]

/-- The step of a unit that can work. -/
theorem stepUnit_eq (stateless : InstructionModel.Stateless ι) (cycle : Nat) {u : ComputeUnit}
    {id group : Nat}
    (found : s.cluster.units[id]? = some u) (sound : u.Sound) (held : u.group = some group) :
    let reply := Bench.memoryCall s.cluster.memory cycle (u.requested s.cluster.isa cycle)
    let after := u.carriedOn s.cluster.isa cycle reply.1
    s.cluster.stepUnit cycle id =
      .ok (if after.isDrained then .finished group else .running,
        { unit := after
          isa := s.cluster.isa
          memory := reply.2
          events := u.reported s.cluster.isa cycle reply.1 }) := by
  intro reply after
  let bench : Bench ι μ := { unit := u, isa := s.cluster.isa, memory := s.cluster.memory }
  have stepped : bench.step cycle = .ok ((bench.cycled u.order cycle group).progress group,
      bench.cycled u.order cycle group) := Bench.stepIn_eq sound rfl held u.order cycle
  have unit : s.cluster.unit id = .ok u := by
    rw [Cluster.unit, found]
    rfl
  rw [Cluster.stepUnit, unit]
  show bench.step cycle = _
  rw [stepped, Bench.progress, cycled_eq stateless _ _ _ held]

theorem visit_outcome (stateless : InstructionModel.Stateless ι) (ready : s.Ready P)
    (cycle : Nat) {id : Nat} (inside : id < s.cluster.units.size) :
    (visit cycle id).outcome s = (.ok (), s.visited cycle id) := by
  obtain ⟨u, found⟩ : ∃ u, s.cluster.units[id]? = some u :=
    ⟨_, Array.getElem?_eq_getElem inside⟩
  have unit : s.cluster.unit id = .ok u := by
    rw [Cluster.unit, found]
    rfl
  unfold visit visited
  rw [Attempt.outcome_get_bind, Attempt.outcome_bind, Attempt.outcome_ofExcept, unit, found]
  dsimp only
  rw [Attempt.outcome_ite]
  rcases held : u.group with _ | group
  · have same : s.cluster.units.setIfInBounds id u = s.cluster.units := by
      apply Array.ext_getElem?
      intro other
      rw [Array.getElem?_setIfInBounds]
      split
      next here => rw [← here, found]
      next => rfl
    simp [record, ComputeUnit.isBusy, held, ComputeUnit.requested, Bench.memoryCall,
      ComputeUnit.afterVisit, ComputeUnit.finish, ComputeUnit.reported, Cluster.setUnit, same]
  · have stepped := stepUnit_eq stateless cycle found (ready.sound id u found) held
    dsimp only at stepped
    have busy : u.isBusy = true := by rw [ComputeUnit.isBusy, held]; rfl
    rw [if_pos busy, Attempt.outcome_get_bind, Attempt.outcome_bind, Attempt.outcome_ofExcept,
      stepped]
    dsimp only
    rw [Attempt.outcome_bind, Attempt.outcome_modify]
    generalize Bench.memoryCall s.cluster.memory cycle (u.requested s.cluster.isa cycle) = reply
    cases drained : (u.carriedOn s.cluster.isa cycle reply.1).isDrained <;>
      simp [record, ComputeUnit.afterVisit, ComputeUnit.finish, held, drained, Cluster.settle,
        Cluster.setUnit]

theorem runCycle_outcome (stateless : InstructionModel.Stateless ι)
    (impartial : MemoryService.Impartial μ P) (ready : s.Ready P) (cycle : Nat) {order : List Nat}
    (inside : ∀ id ∈ order, id < s.cluster.units.size) :
    (runCycle order cycle).outcome s = (.ok (), order.foldl (visited cycle) s) := by
  induction order generalizing s with
  | nil => rfl
  | cons id rest ih =>
      have here := visit_outcome stateless ready cycle (inside id (List.mem_cons_self ..))
      refine (Attempt.outcome_bind_of_ok here).trans ?_
      refine ih (ready.visited impartial cycle id) fun other member => ?_
      rw [size_visited]
      exact inside other (List.mem_cons_of_mem _ member)

/-! ## Two units trade places -/

theorem visited_of_absent {cycle id : Nat} (absent : s.cluster.units[id]? = none) :
    s.visited cycle id = s := by
  rw [visited, absent]

theorem visited_of_present {cycle id : Nat} {u : ComputeUnit}
    (found : s.cluster.units[id]? = some u) :
    s.visited cycle id = s.record cycle id u
      (Bench.memoryCall s.cluster.memory cycle (u.requested s.cluster.isa cycle)) := by
  rw [visited, found]

theorem getElem?_visited_of_ne (s : Sweep ι μ) (cycle : Nat) {id other : Nat}
    (differs : id ≠ other) :
    (s.visited cycle id).cluster.units[other]? = s.cluster.units[other]? := by
  unfold visited
  split
  · rfl
  · exact Array.getElem?_setIfInBounds_ne differs

/-- An earlier request of the cycle has no influence on the answer to a unit. -/
theorem memoryCall_answer (impartial : MemoryService.Impartial μ P) {memory : μ}
    (holds : P memory) (cycle : Nat) (first second : Option MemoryRequest) :
    (Bench.memoryCall (Bench.memoryCall memory cycle first).2 cycle second).1 =
      (Bench.memoryCall memory cycle second).1 := by
  rcases first with _ | first
  · rfl
  · rcases second with _ | second
    · rfl
    · exact congrArg some (impartial.answer first second cycle holds)

theorem memoryCall_comm (impartial : MemoryService.Impartial μ P) {memory : μ}
    (holds : P memory) (cycle : Nat) (first second : Option MemoryRequest) :
    (Bench.memoryCall (Bench.memoryCall memory cycle first).2 cycle second).2 =
      (Bench.memoryCall (Bench.memoryCall memory cycle second).2 cycle first).2 := by
  rcases first with _ | first
  · rfl
  · rcases second with _ | second
    · rfl
    · exact impartial.state first second cycle holds

omit [InstructionModel ι] [MemoryService μ] in
theorem perm_append_swap {α : Type} (before : Array α) (first second : List α) :
    (before ++ first.toArray ++ second.toArray).toList.Perm
      (before ++ second.toArray ++ first.toArray).toList := by
  simp only [Array.toList_append, List.append_assoc]
  exact List.Perm.append_left _ List.perm_append_comm

omit [MemoryService μ] in
/-- Two units trade places if the memory replies to both of them as before. -/
theorem record_comm {cycle id other : Nat} (differs : id ≠ other) {u v : ComputeUnit}
    {first second first' second' : Option Nat × μ} (answer : second.1 = second'.1)
    (answer' : first.1 = first'.1) (memory : second.2 = first'.2) :
    ((s.record cycle id u first).record cycle other v second).Same
      ((s.record cycle other v second').record cycle id u first') := by
  refine ⟨?_, ?_, ?_⟩
  · simp only [record, Cluster.setUnit, answer, answer', memory,
      Array.setIfInBounds_comm _ _ differs]
  · simp only [record, Cluster.setUnit, answer, answer']
    exact perm_append_swap ..
  · simp only [record, Cluster.setUnit, answer, answer']
    exact perm_append_swap ..

/-- Two visits of one cycle can be made in either order. -/
theorem visited_comm (impartial : MemoryService.Impartial μ P) (ready : s.Ready P)
    (cycle id other : Nat) :
    ((s.visited cycle id).visited cycle other).Same ((s.visited cycle other).visited cycle id) := by
  by_cases same : id = other
  · rw [same]
    exact .refl _
  have kept := getElem?_visited_of_ne s cycle same
  have kept' := getElem?_visited_of_ne s cycle (Ne.symm same)
  rcases found : s.cluster.units[id]? with _ | u
  · rw [visited_of_absent found, visited_of_absent (kept'.trans found)]
    exact .refl _
  rcases found' : s.cluster.units[other]? with _ | v
  · rw [visited_of_absent found', visited_of_absent (kept.trans found')]
    exact .refl _
  rw [visited_of_present (kept.trans found'), visited_of_present (kept'.trans found),
    visited_of_present found, visited_of_present found']
  have answer := memoryCall_answer impartial ready.memory cycle
    (u.requested s.cluster.isa cycle) (v.requested s.cluster.isa cycle)
  have answer' := memoryCall_answer impartial ready.memory cycle
    (v.requested s.cluster.isa cycle) (u.requested s.cluster.isa cycle)
  exact record_comm same answer answer'.symm (memoryCall_comm impartial ready.memory cycle _ _)

/-! ## Any order -/

/-- What a visit leads to does not depend on the order of the records. -/
theorem Same.visited (same : s.Same t) (cycle id : Nat) :
    (s.visited cycle id).Same (t.visited cycle id) := by
  obtain ⟨cluster, finished, events⟩ := same
  have units : s.cluster.units = t.cluster.units := by rw [cluster]
  rcases found : s.cluster.units[id]? with _ | u
  · rw [visited_of_absent found, visited_of_absent (units ▸ found)]
    exact ⟨cluster, finished, events⟩
  · rw [visited_of_present found, visited_of_present (units ▸ found)]
    refine ⟨?_, ?_, ?_⟩
    · simp only [record, cluster]
    · simp only [record, cluster, Array.toList_append]
      exact finished.append_right _
    · simp only [record, cluster, Array.toList_append]
      exact events.append_right _

theorem Same.foldl_visited (same : s.Same t) (cycle : Nat) (order : List Nat) :
    (order.foldl (Sweep.visited cycle) s).Same (order.foldl (Sweep.visited cycle) t) := by
  induction order generalizing s t with
  | nil => exact same
  | cons id rest ih => exact ih (same.visited cycle id)

/-- The visits of one cycle can be made in any order. -/
theorem foldl_visited_perm (impartial : MemoryService.Impartial μ P) (cycle : Nat)
    {order order' : List Nat} (perm : order.Perm order') :
    ∀ {s t : Sweep ι μ}, s.Ready P → s.Same t →
      (order.foldl (visited cycle) s).Same (order'.foldl (visited cycle) t) := by
  induction perm with
  | nil => exact fun _ same => same
  | cons id _ ih =>
      exact fun ready same => ih (ready.visited impartial cycle id) (same.visited cycle id)
  | swap id other rest =>
      intro s t ready same
      have swapped := (visited_comm impartial ready cycle other id).trans
        ((same.visited cycle id).visited cycle other)
      exact swapped.foldl_visited cycle rest
  | trans _ _ first second =>
      exact fun ready same => (first ready (.refl _)).trans (second ready same)

theorem Ready.foldl_visited (ready : s.Ready P) (impartial : MemoryService.Impartial μ P)
    (cycle : Nat) (order : List Nat) : (order.foldl (Sweep.visited cycle) s).Ready P := by
  induction order generalizing s with
  | nil => exact ready
  | cons id rest ih => exact ih (ready.visited impartial cycle id)

/-- Several cycles in a row. The order of the visits is chosen anew at the beginning of each. -/
def runChosen (choose : Nat → Sweep ι μ → List Nat) (cycles : List Nat) :
    Attempt (Sweep ι μ) Unit :=
  cycles.forM fun cycle => do runCycle (choose cycle (← get)) cycle

/-- In every cycle, every busy unit is visited once. -/
def VisitsBusy (choose : Nat → Sweep ι μ → List Nat) : Prop :=
  ∀ (cycle : Nat) (s : Sweep ι μ), (choose cycle s).Perm s.cluster.busy

omit [InstructionModel ι] [MemoryService μ] in
theorem VisitsBusy.inside {choose : Nat → Sweep ι μ → List Nat} (fair : VisitsBusy choose)
    (cycle : Nat) (s : Sweep ι μ) : ∀ id ∈ choose cycle s, id < s.cluster.units.size :=
  fun _ member => List.mem_range.mp (List.mem_filter.mp ((fair cycle s).subset member)).1

/-- Whatever is chosen, no visit is refused, and from the same cluster the same follows. -/
theorem runChosen_outcomes (stateless : InstructionModel.Stateless ι)
    (impartial : MemoryService.Impartial μ P) {choose choose' : Nat → Sweep ι μ → List Nat}
    (fair : VisitsBusy choose) (fair' : VisitsBusy choose') (cycles : List Nat)
    {s t : Sweep ι μ} (ready : s.Ready P) (same : s.Same t) :
    ∃ s' t', (runChosen choose cycles).outcome s = (.ok (), s') ∧
      (runChosen choose' cycles).outcome t = (.ok (), t') ∧ s'.Same t' := by
  induction cycles generalizing s t with
  | nil => exact ⟨s, t, rfl, rfl, same⟩
  | cons cycle rest ih =>
      have ready' := ready.of_same same
      have perm : (choose cycle s).Perm (choose' cycle t) := by
        refine (fair cycle s).trans ?_
        rw [same.cluster]
        exact (fair' cycle t).symm
      have first := runCycle_outcome stateless impartial ready cycle (fair.inside cycle s)
      have second := runCycle_outcome stateless impartial ready' cycle (fair'.inside cycle t)
      obtain ⟨s', t', done, done', end_⟩ := ih (ready.foldl_visited impartial cycle _)
        (foldl_visited_perm impartial cycle perm ready same)
      exact ⟨s', t', (Attempt.outcome_bind_of_ok first).trans done,
        (Attempt.outcome_bind_of_ok second).trans done', end_⟩

/-- The units of a cluster share two tiers of memory, of any configuration and with any contents, and
run one program. In every cycle of a list every unit that holds a group is visited once, and a group
that is finished is taken back. Two ways to choose, anew in each cycle, the order of these visits
lead to the same units, the same counters and contents of the memory, and the same records of
finishes and events up to their order. -/
theorem visit_order_makes_no_difference (cluster : Cluster SyntheticProgram Hierarchy)
    (sound : cluster.Sound) (ordered : cluster.memory.Ordered)
    (choose choose' : Nat → Sweep SyntheticProgram Hierarchy → List Nat)
    (fair : VisitsBusy choose) (fair' : VisitsBusy choose') (cycles : List Nat) :
    ∃ s t, (runChosen choose cycles).outcome { cluster } = (.ok (), s) ∧
      (runChosen choose' cycles).outcome { cluster } = (.ok (), t) ∧
      s.cluster = t.cluster ∧
      s.finished.toList.Perm t.finished.toList ∧
      s.events.toList.Perm t.events.toList := by
  have ready : ({ cluster } : Sweep SyntheticProgram Hierarchy).Ready Hierarchy.Ordered :=
    ⟨sound, ordered⟩
  obtain ⟨s, t, done, done', same⟩ := runChosen_outcomes SyntheticProgram.stateless
    Hierarchy.impartial fair fair' cycles ready (.refl { cluster })
  exact ⟨s, t, done, done', same.cluster, same.finished, same.events⟩

/-- Two units load and store the same words through a cache of one line, and are visited in either
order. -/
theorem visit_order_makes_no_difference_on_two_units :
    ∃ one two : Cluster SyntheticProgram Hierarchy,
      (Cluster.create 0 2 2 (SyntheticProgram.ofKinds [.load, .store])
        (Hierarchy.create { l2Lines := 1, lineSize := 4 })).assign 0 0
          [{ id := 0, items := ⟨0, 4⟩ }] = .ok one ∧
      one.assign 1 1 [{ id := 1, items := ⟨0, 4⟩ }] = .ok two ∧
      ∃ s t, (runChosen (fun _ s => s.cluster.busy) (List.range 1000)).outcome { cluster := two } =
          (.ok (), s) ∧
        (runChosen (fun _ s => s.cluster.busy.reverse) (List.range 1000)).outcome
          { cluster := two } = (.ok (), t) ∧
        s.cluster = t.cluster ∧
        s.finished.toList.Perm t.finished.toList ∧
        s.events.toList.Perm t.events.toList := by
  have first : (Cluster.create 0 2 2 (SyntheticProgram.ofKinds [.load, .store])
      (Hierarchy.create { l2Lines := 1, lineSize := 4 })).assign 0 0
        [{ id := 0, items := ⟨0, 4⟩ }] = .ok _ := rfl
  have given : (Cluster.create 0 2 2 (SyntheticProgram.ofKinds [.load, .store])
      (Hierarchy.create { l2Lines := 1, lineSize := 4 })).Sound := .create (by decide) _ _
  refine ⟨_, _, first, rfl, visit_order_makes_no_difference _ ?_ (Hierarchy.ordered_create _) _ _
    (fun _ _ => .refl _) (fun _ _ => List.reverse_perm _) _⟩
  exact (given.assign first).assign
    (show Cluster.assign _ 1 1 [{ id := 1, items := ⟨0, 4⟩ }] = .ok _ from rfl)

end Sweep

end Accelerator
