import Accelerator.Proofs.Pipeline.Residency
import Accelerator.Proofs.Rotation

/-!
# Whose turn it is to issue

The schedule stage goes round the wavefronts of a unit and issues an instruction of the first one
that can. When there is room behind the stage, and for which wavefronts it is waiting, depends on
everything else that goes on in the unit.

It is fair nevertheless (`ComputeUnit.issue_is_fair`): a wavefront that can issue can do so until it
does, and until then no other one has issued twice. In every cycle in which there is room, and some
wavefront can issue, one does.
-/

namespace Accelerator.ComputeUnit

variable {ι μ : Type} [InstructionModel ι] [MemoryService μ] {u : ComputeUnit}
  {cycle group index : Nat} {a : Answers} {r : Resident}

/-! ## The search for a wavefront -/

/-- The search goes round the wavefronts, `k` of them. -/
theorem issuableFrom_eq (k : Nat) {start : Nat} (inside : start < u.wavefronts.size) :
    u.issuableFrom k start =
      ((List.range' start k).map (· % u.wavefronts.size)).find? u.isIssuableAt := by
  induction k generalizing start with
  | zero => rfl
  | succ k ih =>
      have onward : (List.range' ((start + 1) % u.wavefronts.size) k).map
          (· % u.wavefronts.size) = (List.range' (start + 1) k).map (· % u.wavefronts.size) := by
        refine List.ext_getElem (by simp) fun i _ _ => ?_
        simp only [List.getElem_map, List.getElem_range', Nat.one_mul, Nat.mod_add_mod]
      rw [issuableFrom, ih (Nat.mod_lt _ (by omega)), onward, List.range'_succ, List.map_cons,
        List.find?_cons, Nat.mod_eq_of_lt inside]
      cases u.isIssuableAt start <;> rfl

theorem nextIssuable_eq (some_wavefronts : 0 < u.wavefronts.size) :
    u.nextIssuable = (countFrom (u.cursor % u.wavefronts.size) u.wavefronts.size).find?
      u.isIssuableAt := by
  have inside := Nat.mod_lt u.cursor some_wavefronts
  rw [nextIssuable, issuableFrom_eq _ inside, countFrom_eq_map_mod inside]

theorem isIssuableAt_of_found (found : u.wavefronts[index]? = some r) :
    u.isIssuableAt index = r.isIssuable := by
  rw [isIssuableAt, found, Option.any_some]

/-- What is issued comes first among the wavefronts that can issue. -/
theorem before_of_issue {v : Nat} (issue : u.plan.issue = some v)
    (found : u.wavefronts[index]? = some r) (fit : r.isIssuable = true) (other : v ≠ index) :
    Before (u.cursor % u.wavefronts.size) v index := by
  have inside : index < u.wavefronts.size := (Array.getElem?_eq_some_iff.mp found).1
  have searched : u.nextIssuable = some v := by
    rw [plan_issue] at issue
    split at issue
    · exact issue
    · cases issue
  rw [nextIssuable_eq (by omega), find?_countFrom_eq_some_iff] at searched
  refine searched.2.2 index inside ?_ (Ne.symm other)
  rw [isIssuableAt_of_found found, fit]

/-- If there is room and some wavefront can issue, one does. -/
theorem exists_issue (found : u.wavefronts[index]? = some r) (fit : r.isIssuable = true)
    (room : u.latches.isOccupied .schedule = false ∨ u.plan.fetch = true) :
    ∃ v, u.plan.issue = some v := by
  have inside : index < u.wavefronts.size := (Array.getElem?_eq_some_iff.mp found).1
  have searched : u.plan.issue = u.nextIssuable := by
    rw [plan_issue]
    rcases room with free | drained
    · simp [free]
    · simp [drained]
  rw [searched, nextIssuable_eq (by omega)]
  refine Option.ne_none_iff_exists'.mp fun nobody => ?_
  refine List.find?_eq_none.mp nobody index (mem_countFrom.mpr inside) ?_
  rw [isIssuableAt_of_found found, fit]

/-! ## What a call issues -/

/-- The wavefronts for which a call issues instructions. The schedule stage reports every slot that it
leaves in the latch behind it, and there the slot is found when the cycle is over. -/
def issuesIn (u : ComputeUnit) : Call ι μ → List Nat
  | .step cycle isa memory =>
    match u.stepped cycle isa memory with
    | .ok (_, b) =>
      (b.events.filter fun e => e.stage == some .schedule && e.action == .produce).flatMap fun _ =>
        (b.unit.latches.schedule.current.map (·.index)).toList
    | .error _ => []
  | _ => []

theorem not_drained_of_fit (found : u.wavefronts[index]? = some r) (active : r.retired = false) :
    u.isDrained = false := by
  refine eq_false_of_ne_true fun drained => ?_
  simp only [isDrained, Bool.and_eq_true, Array.all_eq_true_iff_forall_mem] at drained
  have retired := drained.2 r (Array.mem_of_getElem? found)
  rw [active] at retired
  cases retired

theorem stepped_of_fit (sound : u.Sound) (found : u.wavefronts[index]? = some r)
    (active : r.retired = false) (cycle : Nat) (isa : ι) (memory : μ) :
    ∃ progress group, u.stepped cycle isa memory =
      .ok (progress, Bench.after u.order cycle group { unit := u, isa, memory }) := by
  obtain ⟨group, held⟩ : ∃ group, u.group = some group := by
    refine Option.ne_none_iff_exists'.mp fun free => ?_
    rw [sound.unassigned free] at found
    cases found
  have stepped := sound.stepped_eq held cycle isa memory
  rw [Bench.cycled, if_neg (by simp [not_drained_of_fit found active])] at stepped
  exact ⟨_, group, stepped⟩

/-- A cycle issues for the wavefront that the plan names, and for no other one. -/
theorem issuesIn_of_stepped {progress : Progress} {isa : ι} {memory : μ}
    (stepped : u.stepped cycle isa memory =
      .ok (progress, Bench.after u.order cycle group { unit := u, isa, memory })) :
    u.issuesIn (.step cycle isa memory) = u.plan.issue.toList := by
  let a := Bench.answersIn u.order cycle { unit := u, isa, memory }
  have reported : ((Bench.after u.order cycle group { unit := u, isa, memory }).events.filter
      fun e => e.stage == some .schedule && e.action == .produce) =
      (u.issued cycle).toList.map (u.stageEvent cycle group .schedule .produce) := by
    show ([] ++ u.order.stages.flatMap (u.stageEvents cycle group a)).filter _ = _
    rw [List.nil_append, ← List.filter_filter, List.filter_comm, filter_stageEvents]
    rcases issued : u.issued cycle with _ | slot <;>
      simp [stageEvents, taken, given, issued, stageEvent]
  have latch : (Bench.after u.order cycle group { unit := u, isa, memory }).unit.latches.schedule =
      u.nextLatch cycle a .schedule := rfl
  rw [issuesIn, stepped]
  simp only
  rw [reported, latch]
  rcases issue : u.plan.issue with _ | v
  · simp [issued, issue]
  · obtain ⟨r, found, -⟩ := issuable_of_issue issue
    simp [issued, issue, found, nextLatch, given]

/-! ## Waiting for one's turn -/

/-- A wavefront that can issue is left as it is by a cycle that does not issue for it. -/
theorem Sound.getElem?_next_of_fit (sound : u.Sound) (found : u.wavefronts[index]? = some r)
    (waits : r.inFlight = false) (other : u.plan.issue ≠ some index) (cycle : Nat) (a : Answers) :
    (u.next cycle a).wavefronts[index]? = some r := by
  rw [getElem?_next, found, Option.map_some, nextResident_of_ne]
  · rintro slot issued rfl
    obtain ⟨v, r, issue, -, rfl⟩ := issued_eq_some_iff.mp issued
    exact other issue
  · rintro slot taken rfl
    obtain ⟨r', found', -, -, inFlight, -⟩ := sound.carried slot (mem_slots_of_taken taken)
    cases found.symm.trans found'
    rw [waits] at inFlight
    cases inFlight

/-- While a wavefront can issue, a call leaves the search where it stands, or issues for one
wavefront and lets the search go on behind it. A wavefront that is issued for before its turn comes
has come before it in the search. -/
theorem Sound.issuesIn_cases (sound : u.Sound) (found : u.wavefronts[index]? = some r)
    (waits : r.inFlight = false) (active : r.retired = false) (call : Call ι μ) :
    (u.afterCall call).wavefronts.size = u.wavefronts.size ∧
      ((u.issuesIn call = [] ∧ (u.afterCall call).cursor = u.cursor ∧
          (u.afterCall call).wavefronts[index]? = some r) ∨
        ∃ v < u.wavefronts.size, u.issuesIn call = [v] ∧
          (u.afterCall call).cursor = (v + 1) % u.wavefronts.size ∧
          (v ≠ index → Before (u.cursor % u.wavefronts.size) v index ∧
            (u.afterCall call).wavefronts[index]? = some r)) := by
  have fit : r.isIssuable = true := by simp [Resident.isIssuable, waits, active]
  cases call with
  | assign group wavefronts =>
      obtain ⟨running, held⟩ : ∃ running, u.group = some running := by
        refine Option.ne_none_iff_exists'.mp fun free => ?_
        rw [sound.unassigned free] at found
        cases found
      have same : u.afterCall (.assign group wavefronts : Call ι μ) = u := by
        simp only [ComputeUnit.afterCall, ComputeUnit.assign, held]
        rfl
      rw [same]
      exact ⟨rfl, .inl ⟨rfl, rfl, found⟩⟩
  | step cycle isa memory =>
      obtain ⟨progress, group, stepped⟩ := stepped_of_fit sound found active cycle isa memory
      let a := Bench.answersIn u.order cycle { unit := u, isa, memory }
      have next : u.afterCall (.step cycle isa memory) = u.next cycle a := by
        rw [ComputeUnit.afterCall, stepped]
        rfl
      have cursor : (u.next cycle a).cursor = u.nextCursor := rfl
      rw [next, issuesIn_of_stepped stepped, cursor, nextCursor]
      refine ⟨by simp [ComputeUnit.next], ?_⟩
      rcases issue : u.plan.issue with _ | v
      · refine .inl ⟨rfl, rfl, sound.getElem?_next_of_fit found waits ?_ cycle a⟩
        simp [issue]
      · obtain ⟨r', found', -⟩ := issuable_of_issue issue
        refine .inr ⟨v, (Array.getElem?_eq_some_iff.mp found').1, rfl, rfl, fun other => ?_⟩
        refine ⟨before_of_issue issue found fit other, ?_⟩
        refine sound.getElem?_next_of_fit found waits ?_ cycle a
        rw [issue]
        exact fun same => other (Option.some.inj same)
  | release =>
      have same : u.afterCall (.release : Call ι μ) = u := by
        rcases u.release_snd with same | ⟨drained, -⟩
        · exact same
        · rw [not_drained_of_fit found active] at drained
          cases drained
      rw [same]
      exact ⟨rfl, .inl ⟨rfl, rfl, found⟩⟩

/-! ## Requests in a row -/

/-- What a unit may be asked for: to take a call, or to evaluate its stages in another order from then
on. -/
inductive Request (ι μ : Type) where
  | call (call : Call ι μ)
  | setOrder (order : StageOrder)

def afterRequest (u : ComputeUnit) : Request ι μ → ComputeUnit
  | .call call => u.afterCall call
  | .setOrder order => { u with order }

def afterRequests (u : ComputeUnit) (requests : List (Request ι μ)) : ComputeUnit :=
  requests.foldl afterRequest u

/-- The wavefronts for which a request issues instructions. -/
def issuesFor (u : ComputeUnit) : Request ι μ → List Nat
  | .call call => u.issuesIn call
  | .setOrder _ => []

/-- The wavefronts for which requests made one after the other issue instructions, in that order. -/
def issues (u : ComputeUnit) : List (Request ι μ) → List Nat
  | [] => []
  | request :: rest => u.issuesFor request ++ (u.afterRequest request).issues rest

theorem Sound.afterRequest (sound : u.Sound) (request : Request ι μ) :
    (u.afterRequest request).Sound := by
  cases request with
  | call call => exact (sound.afterCall call).1
  | setOrder order => exact sound.withOrder order

theorem Sound.afterRequests (sound : u.Sound) (requests : List (Request ι μ)) :
    (u.afterRequests requests).Sound := by
  induction requests generalizing u with
  | nil => exact sound
  | cons request rest ih => exact ih (sound.afterRequest request)

/-- The order of the stages has no part in whose turn it is. -/
theorem Sound.issuesFor_cases (sound : u.Sound) (found : u.wavefronts[index]? = some r)
    (waits : r.inFlight = false) (active : r.retired = false) (request : Request ι μ) :
    (u.afterRequest request).wavefronts.size = u.wavefronts.size ∧
      ((u.issuesFor request = [] ∧ (u.afterRequest request).cursor = u.cursor ∧
          (u.afterRequest request).wavefronts[index]? = some r) ∨
        ∃ v < u.wavefronts.size, u.issuesFor request = [v] ∧
          (u.afterRequest request).cursor = (v + 1) % u.wavefronts.size ∧
          (v ≠ index → Before (u.cursor % u.wavefronts.size) v index ∧
            (u.afterRequest request).wavefronts[index]? = some r)) := by
  cases request with
  | call call => exact sound.issuesIn_cases found waits active call
  | setOrder order => exact ⟨rfl, .inl ⟨rfl, rfl, found⟩⟩

/-- Until it is issued for, a wavefront that can issue stays as it is, and is passed over in turn. -/
theorem Sound.passes_issues (sound : u.Sound) (found : u.wavefronts[index]? = some r)
    (waits : r.inFlight = false) (active : r.retired = false) (requests : List (Request ι μ)) :
    (index ∉ u.issues requests → (u.afterRequests requests).wavefronts[index]? = some r) ∧
      (∀ v ∈ (u.issues requests).takeWhile (· ≠ index), v < u.wavefronts.size) ∧
      Passes index (u.cursor % u.wavefronts.size)
        ((u.issues requests).takeWhile (· ≠ index)) := by
  induction requests generalizing u with
  | nil => exact ⟨fun _ => found, nofun, .nil⟩
  | cons request rest ih =>
      obtain ⟨size, ⟨none, cursor, still⟩ | ⟨v, inside, one, cursor, earlier⟩⟩ :=
        sound.issuesFor_cases found waits active request
      · have later := ih (sound.afterRequest request) still
        rw [cursor, size] at later
        rw [issues, none, List.nil_append]
        exact later
      · rw [issues, one, List.singleton_append]
        by_cases here : v = index
        · rw [List.takeWhile_cons_of_neg (by simp [here])]
          exact ⟨fun absent => absurd (here ▸ List.mem_cons_self ..) absent, nofun, .nil⟩
        · obtain ⟨first, still⟩ := earlier here
          obtain ⟨stays, below, passes⟩ := ih (sound.afterRequest request) still
          rw [size] at below passes
          rw [cursor, Nat.mod_mod] at passes
          rw [List.takeWhile_cons_of_pos (by simp [here])]
          refine ⟨fun absent => stays fun member => absent (.tail _ member), ?_, ?_⟩
          · exact fun w member => (List.mem_cons.mp member).elim (· ▸ inside) (below w)
          · exact .cons first
              (passes.wrap inside (Array.getElem?_eq_some_iff.mp found).1 below)

/-! ## Fairness -/

/-- The fetch stage reports what it takes. -/
theorem exists_fetched_iff (order : StageOrder) :
    (∃ e ∈ order.stages.flatMap (u.stageEvents cycle group a),
      e.stage = some .fetch ∧ e.action = .consume) ↔ u.plan.fetch = true := by
  constructor
  · rintro ⟨e, told, stage, action⟩
    obtain ⟨other, -, told⟩ := List.mem_flatMap.mp told
    obtain rfl := Option.some.inj ((stage_of_mem_stageEvents told).symm.trans stage)
    by_contra idle
    simp [stageEvents, taken, given, idle] at told
  · intro fetches
    obtain ⟨slot, held⟩ : ∃ slot, u.latches.schedule.current = some slot := by
      rw [plan_fetch, Bool.and_eq_true] at fetches
      exact Option.isSome_iff_exists.mp fetches.1
    refine ⟨(u.stageEvent cycle group .fetch .consume slot).withProducedAt slot.producedAt,
      List.mem_flatMap.mpr ⟨.fetch, order.mem_stages .fetch, ?_⟩, rfl, rfl⟩
    simp [stageEvents, taken, fetches, held]

/-- Whatever has been asked of a new unit whose number of lanes 32 bits can hold, let a wavefront have
nothing in flight and something left to run. Whatever is asked of the unit from then on, the wavefront
stays as it is until an instruction of it is issued, which is among the next `n` that the unit issues
for its `n` wavefronts; and before it no instruction of another wavefront is issued twice.

A step in which such a wavefront is there is not refused. If the first latch is empty, or the fetch
stage empties it in this cycle, an instruction of one such wavefront is issued; and if not, none. -/
theorem issue_is_fair (id deviceId : Nat) {lanes : Nat} (width : laneWord (max lanes 1) ≠ 0)
    (requests : List (Request ι μ)) :
    let u := (ComputeUnit.create id deviceId lanes).afterRequests requests
    let n := u.wavefronts.size
    (∀ (index : Nat) (r : Resident), u.wavefronts[index]? = some r → r.inFlight = false →
      r.retired = false → ∀ later : List (Request ι μ),
        (index ∉ u.issues later → (u.afterRequests later).wavefronts[index]? = some r) ∧
        (n ≤ (u.issues later).length → index ∈ (u.issues later).take n) ∧
        ((u.issues later).takeWhile (· ≠ index)).Nodup) ∧
    ∀ (cycle : Nat) (isa : ι) (memory : μ),
      (∃ r ∈ u.wavefronts, r.inFlight = false ∧ r.retired = false) →
      ∃ progress b, u.stepped cycle isa memory = .ok (progress, b) ∧
        let room := u.latches.schedule.isEmpty = true ∨
          ∃ e ∈ b.events, e.stage = some .fetch ∧ e.action = .consume
        (room → ∃ index r, u.issuesIn (.step cycle isa memory) = [index] ∧
          u.wavefronts[index]? = some r ∧ r.inFlight = false ∧ r.retired = false) ∧
        (¬ room → u.issuesIn (.step cycle isa memory) = []) := by
  intro u n
  have sound : u.Sound := (Sound.create width).afterRequests requests
  refine ⟨fun index r found waits active later => ?_, fun cycle isa memory some_fit => ?_⟩
  · have inside : index < n := (Array.getElem?_eq_some_iff.mp found).1
    obtain ⟨stays, below, passes⟩ := sound.passes_issues found waits active later
    exact ⟨stays, passes.mem_take inside below, passes.nodup⟩
  · obtain ⟨r, member, waits, active⟩ := some_fit
    obtain ⟨index, found⟩ := Array.getElem?_of_mem member
    have fit : r.isIssuable = true := by simp [Resident.isIssuable, waits, active]
    obtain ⟨progress, group, stepped⟩ := stepped_of_fit sound found active cycle isa memory
    refine ⟨progress, _, stepped, ?_⟩
    have emptied : (∃ e ∈ (Bench.after u.order cycle group { unit := u, isa, memory }).events,
        e.stage = some .fetch ∧ e.action = .consume) ↔ u.plan.fetch = true :=
      exists_fetched_iff u.order
    have free : u.latches.schedule.isEmpty = true ↔ u.latches.isOccupied .schedule = false := by
      have settled : u.latches.schedule.next = none := sound.settled .schedule
      simp [Latch.isEmpty, Latches.isOccupied, Latches.get, Latch.isOccupied, settled]
    dsimp only
    rw [emptied, free, issuesIn_of_stepped stepped]
    constructor
    · intro room
      obtain ⟨v, issue⟩ := exists_issue found fit room
      obtain ⟨r', found', waits', active'⟩ := issuable_of_issue issue
      exact ⟨v, r', by rw [issue]; rfl, found', waits', active'⟩
    · intro full
      obtain ⟨occupied, kept⟩ := not_or.mp full
      rw [plan_issue]
      simp [occupied, kept]

/-- Two wavefronts of two instructions each, of which the first has issued: the second one is next,
though the order of the stages is changed before. -/
theorem issue_is_fair_to_two_wavefronts :
    let requests : List (Request SyntheticProgram FixedLatency) :=
      [.call (.assign 5 [{ id := 7, items := ⟨0, 2⟩ }, { id := 8, items := ⟨2, 4⟩ }]),
        .call (.step 1 (.ofKinds [.alu, .alu]) { latency := 3 })]
    let later : List (Request SyntheticProgram FixedLatency) :=
      .call .release :: .setOrder .forward :: (List.range 8).map fun k =>
        .call (.step (2 + k) (.ofKinds [.alu, .alu]) { latency := 3 })
    let u := (ComputeUnit.create 3 0 2).afterRequests requests
    u.issues later = [1, 0, 1] ∧ 1 ∈ (u.issues later).take 2 ∧
      ((u.issues later).takeWhile (· ≠ 1)).Nodup ∧ ∃ progress b,
        u.stepped 2 (SyntheticProgram.ofKinds [.alu, .alu]) ({ latency := 3 } : FixedLatency) =
          .ok (progress, b) := by
  intro requests later u
  have issued : u.issues later = [1, 0, 1] := by decide +kernel
  obtain ⟨r, found, waits, active⟩ : ∃ r, u.wavefronts[1]? = some r ∧ r.inFlight = false ∧
      r.retired = false := ⟨u.wavefronts[1]!, by decide +kernel⟩
  obtain ⟨fair, busy⟩ := issue_is_fair (ι := SyntheticProgram) (μ := FixedLatency) 3 0
    (show laneWord (max 2 1) ≠ 0 by decide) requests
  have size : u.wavefronts.size = 2 := by decide +kernel
  obtain ⟨-, soon, once⟩ := fair 1 r found waits active later
  change u.wavefronts.size ≤ _ → 1 ∈ (u.issues later).take u.wavefronts.size at soon
  rw [size, issued] at soon
  obtain ⟨progress, b, stepped, -⟩ := busy 2 (.ofKinds [.alu, .alu]) { latency := 3 }
    ⟨r, Array.mem_of_getElem? found, waits, active⟩
  exact ⟨issued, issued ▸ soon (by decide), once, progress, b, stepped⟩

end Accelerator.ComputeUnit
