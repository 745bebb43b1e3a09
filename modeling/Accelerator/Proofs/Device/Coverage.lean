import Accelerator.Proofs.Device.Visits

/-!
# Who is given which item

In a run every wavefront takes one turn after the other, for one instruction after the other, and
in the end it has taken all of them (`Covered`). Items are spread over the turns of wavefronts in such
a way that each is in one of them; so every item is given to one lane for each instruction, and
memory is asked for the word of every item once by each instruction that touches memory.
-/

namespace Accelerator

/-! ## Turns in a row -/

namespace Share

/-- The turn is one of the wavefront at a position of a group. -/
def isOf (group index : Nat) (s : Share) : Bool := s.group == group && s.index == index

/-- The first turns of a wavefront that has `turns` of them for each instruction. -/
def row (unit group index : Nat) (w : Wavefront) (turns count : Nat) : List Share :=
  (List.range count).map fun k =>
    { unit, group, index, wavefront := w, pc := k / turns, turn := k % turns }

theorem row_succ (unit group index : Nat) (w : Wavefront) (turns count : Nat) :
    row unit group index w turns (count + 1) = row unit group index w turns count ++
      [{ unit, group, index, wavefront := w, pc := count / turns, turn := count % turns }] := by
  simp [row, List.range_succ]

/-- A turn comes after those that the wavefront has had. -/
theorem row_append {s : Share} {turns count : Nat} (below : s.turn < turns)
    (before : count = s.pc * turns + s.turn) :
    row s.unit s.group s.index s.wavefront turns count ++ [s] =
      row s.unit s.group s.index s.wavefront turns (count + 1) := by
  obtain ⟨pc, turn⟩ : count / turns = s.pc ∧ count % turns = count - s.pc * turns :=
    NdRange.div_mod_of_between (by omega) (by omega)
  have turn : count % turns = s.turn := by omega
  rw [row_succ, pc, turn]

end Share

namespace ComputeUnit

variable {u : ComputeUnit}

/-- The wavefronts of a new group have had no turn yet. -/
theorem Sound.turnsTaken_loaded (sound : u.Sound) (free : u.group = none) (group : Nat)
    (wavefronts : List Wavefront) (index : Nat) :
    (u.loaded group wavefronts).turnsTaken index = 0 := by
  have empty := sound.slots_eq_nil free
  simp only [slots, List.append_eq_nil_iff, Option.toList_eq_nil_iff,
    Option.map_eq_none_iff] at empty
  rcases here : wavefronts[index]? with _ | w <;>
    simp [turnsTaken, turnsUnderWay, pcAt, loaded, here, empty, weight]

theorem finishes_loaded (u : ComputeUnit) (p : SyntheticProgram) (group : Nat)
    (wavefronts : List Wavefront) : (u.loaded group wavefronts).Finishes p := by
  intro index r found retired
  simp only [loaded, List.getElem?_toArray, List.getElem?_map, Option.map_eq_some_iff] at found
  obtain ⟨w, -, rfl⟩ := found
  cases retired

end ComputeUnit

namespace Job

variable {μ π : Type} [Placement π] {p : SyntheticProgram} {lanes unit group cycle : Nat}
  {u : ComputeUnit}

/-- The turn that a unit takes is one of a wavefront of its group. -/
theorem Follows.share_eq {job : Job SyntheticProgram μ π} (follows : job.Follows p lanes)
    (resident : job.device.cluster.units[unit]? = some u) (serves : u.Serves job.launch)
    (held : u.group = some group) {ws : List Wavefront}
    (listed : job.launch.wavefrontsOf group = .ok ws) {s : Share}
    (shared : u.share cycle group = some s) :
    s.unit = unit ∧ s.group = group ∧ ws[s.index]? = some s.wavefront ∧
      s.turn < (s.wavefront.subwavefrontCount? lanes).getD 0 ∧
      u.turnsTaken s.index =
        s.pc * (s.wavefront.subwavefrontCount? lanes).getD 0 + s.turn := by
  obtain ⟨runs, width⟩ := follows.units unit u resident
  obtain ⟨r, found, wavefront, group_eq, id, below, before⟩ :=
    runs.share_eq (follows.owned.sound unit u resident) shared
  have turns : u.turnsAt s.index = (s.wavefront.subwavefrontCount? lanes).getD 0 := by
    rw [ComputeUnit.turnsAt_of_found found, width, wavefront]
  rw [turns] at below before
  refine ⟨id.trans (follows.owned.numbered unit u resident), group_eq, ?_, below, before⟩
  rw [serves.getElem?_eq held listed, found, wavefront]
  rfl

end Job

namespace Watched

open Relation Noted

variable {μ π : Type} {p : SyntheticProgram} {lanes unit group index : Nat} {w : Wavefront}
  {seen : Watched SyntheticProgram μ π} {after : Job SyntheticProgram μ π}

/-- The turns that have been taken, in order. -/
def log (seen : Watched SyntheticProgram μ π) : List Share := seen.notes.filterMap Visit.share?

/-- The turns that a wavefront has had. -/
def turnsOf (seen : Watched SyntheticProgram μ π) (group index : Nat) : List Share :=
  seen.log.filter (·.isOf group index)

/-- The turns that have been taken of the wavefront at a position of a group in some phase. -/
inductive Taken (p : SyntheticProgram) (lanes : Nat) (seen : Watched SyntheticProgram μ π)
    (group index : Nat) (w : Wavefront) : Phase → Prop
  | pending (nothing : seen.turnsOf group index = []) : Taken p lanes seen group index w .pending
  | running {unit : Nat} {u : ComputeUnit}
      (resident : seen.job.device.cluster.units[unit]? = some u)
      (some_turns : seen.turnsOf group index = Share.row unit group index w
        ((w.subwavefrontCount? lanes).getD 0) (u.turnsTaken index)) :
      Taken p lanes seen group index w (.running unit)
  | done {unit : Nat}
      (all_turns : seen.turnsOf group index = Share.row unit group index w
        ((w.subwavefrontCount? lanes).getD 0)
        (p.length * (w.subwavefrontCount? lanes).getD 0)) :
      Taken p lanes seen group index w (.done unit)

variable [Placement π] [MemoryService μ]

/-- Every wavefront has had the turns that it should have had so far, and what lanes and memory have
been given and asked is what these turns need. -/
structure Covered (p : SyntheticProgram) (lanes : Nat) (seen : Watched SyntheticProgram μ π) :
    Prop where
  follows : seen.job.Follows p lanes
  /-- There is somebody to do the work. -/
  staffed : ∃ (unit : Nat) (u : ComputeUnit), seen.job.device.cluster.units[unit]? = some u
  serves : ∀ (unit : Nat) (u : ComputeUnit), seen.job.device.cluster.units[unit]? = some u →
    u.Serves seen.job.launch
  finishes : ∀ (unit : Nat) (u : ComputeUnit), seen.job.device.cluster.units[unit]? = some u →
    u.Finishes p
  units : ∀ s ∈ seen.log, ∃ u, seen.job.device.cluster.units[s.unit]? = some u
  known : ∀ s ∈ seen.log, s.turn < (s.wavefront.subwavefrontCount? lanes).getD 0 ∧
    ∃ ws, seen.job.launch.wavefrontsOf s.group = .ok ws ∧ ws[s.index]? = some s.wavefront
  taken : ∀ (group : Nat) (g : WorkGroup) (ws : List Wavefront) (index : Nat) (w : Wavefront),
    seen.job.launch.groups[group]? = some g → seen.job.launch.wavefrontsOf group = .ok ws →
      ws[index]? = some w → Taken p lanes seen group index w g.phase
  issues : seen.issues = seen.log.flatMap (·.issues lanes)
  asked : seen.asked = seen.log.flatMap (·.asked p lanes)
  counted : (seen.job.device.units.map (·.ops)).sum = seen.issues.length
  visits : ∀ v ∈ seen.notes, v.Regular p lanes

omit [Placement π] [MemoryService μ] in
/-- Nothing changes for a wavefront that has no turn while its unit rests. -/
theorem Taken.congr {seen' : Watched SyntheticProgram μ π} {phase : Phase}
    (taken : Taken p lanes seen group index w phase)
    (turns : seen'.turnsOf group index = seen.turnsOf group index)
    (units : ∀ unit u, phase = .running unit → seen.job.device.cluster.units[unit]? = some u →
      seen'.job.device.cluster.units[unit]? = some u) :
    Taken p lanes seen' group index w phase := by
  cases taken with
  | pending nothing => exact .pending (turns.trans nothing)
  | running resident some_turns => exact .running (units _ _ rfl resident) (turns.trans some_turns)
  | done all_turns => exact .done (turns.trans all_turns)

/-! ## Dispatch -/

/-- The wavefronts of a group that is handed out have had no turn so far. -/
theorem Covered.hands (covered : Covered p lanes seen) (hands : seen.job.Hands after) :
    Covered p lanes { seen with job := after } := by
  have follows := hands.follows covered.follows
  have shape := hands.sameRun.shape
  cases hands with
  | @intro placement unit u g rest wavefronts reliable pending found waits listed resident free =>
      let next := seen.job.handed placement unit u g rest wavefronts
      have units : ∀ other, next.device.cluster.units[other]? =
          if other = unit then some (u.loaded g.id wavefronts)
          else seen.job.device.cluster.units[other]? := Job.getElem?_setUnit resident
      refine ⟨follows, ⟨unit, _, (units unit).trans (if_pos rfl)⟩, ?_, ?_, fun s member => ?_, ?_, ?_,
        covered.issues, covered.asked, ?_, covered.visits⟩
      · have serves := Job.forall_units (P := fun _ v => v.Serves seen.job.launch) units
          (u.serves_loaded listed) covered.serves
        exact fun other v found => (serves other v found).congr shape
      · exact Job.forall_units (P := fun _ v => v.Finishes p) units
          (u.finishes_loaded p g.id wavefronts) covered.finishes
      · rw [units]
        split
        · exact ⟨_, rfl⟩
        · exact covered.units s member
      · rw [shape.wavefrontsOf]
        exact covered.known
      · rw [shape.wavefrontsOf]
        intro group h ws index w here listed' place
        have started : next.launch.groups[group]? =
            if group = g.id then some { g with phase := .running unit }
            else seen.job.launch.groups[group]? := NdRange.getElem?_start found group
        rw [started] at here
        by_cases same : group = g.id
        · subst same
          rw [if_pos rfl] at here
          cases here
          have before := covered.taken g.id g ws index w found listed' place
          rw [waits] at before
          cases before with
          | pending nothing =>
              refine .running ((units unit).trans (if_pos rfl)) ?_
              rw [(covered.follows.owned.sound unit u resident).turnsTaken_loaded free]
              exact nothing
        · rw [if_neg same] at here
          refine (covered.taken group h ws index w here listed' place).congr rfl
            fun other v runs found' => ?_
          -- A unit with a group of its own is not the one that is given another.
          have differs : other ≠ unit := by
            rintro rfl
            obtain ⟨v', resident', held⟩ :=
              (covered.follows.owned.owners other group).mpr ⟨h, here, runs⟩
            cases resident.symm.trans resident'
            cases free.symm.trans held
          exact (units other).trans ((if_neg differs).trans found')
      · have sums : (next.device.units.map (·.ops)).sum + u.ops =
            (seen.job.device.units.map (·.ops)).sum + (u.loaded g.id wavefronts).ops :=
          Job.sum_units_of_change resident units (·.ops)
        exact (Nat.add_right_cancel sums).trans covered.counted

/-! ## Work -/

omit [Placement π] [MemoryService μ] in
/-- A visit adds the turn that is taken in it. -/
theorem log_visited (seen : Watched SyntheticProgram μ π) (after : Job SyntheticProgram μ π)
    (v : Visit SyntheticProgram μ) :
    log { job := after, notes := seen.notes ++ [v] } = seen.log ++ v.share?.toList := by
  rcases taken : v.share? with _ | s <;> simp [log, taken]

omit [Placement π] in
theorem issues_visited (seen : Watched SyntheticProgram μ π) (after : Job SyntheticProgram μ π)
    (v : Visit SyntheticProgram μ) :
    issues { job := after, notes := seen.notes ++ [v] } = seen.issues ++ v.issues := by
  simp [issues]

omit [Placement π] in
theorem asked_visited (seen : Watched SyntheticProgram μ π) (after : Job SyntheticProgram μ π)
    (v : Visit SyntheticProgram μ) :
    asked { job := after, notes := seen.notes ++ [v] } = seen.asked ++ v.asked := by
  simp [asked]

variable {u : ComputeUnit} {g : WorkGroup}

/-- The turns that a wavefront of the group has had once the unit has worked. -/
theorem Covered.turnsOf_worked (covered : Covered p lanes seen)
    (resident : seen.job.device.cluster.units[unit]? = some u) (held : u.group = some group)
    {ws : List Wavefront} (listed : seen.job.launch.wavefrontsOf group = .ok ws)
    (here : ws[index]? = some w) {order : StageOrder} {cycle : Nat}
    (some_turns : seen.turnsOf group index = Share.row unit group index w
      ((w.subwavefrontCount? lanes).getD 0) (u.turnsTaken index)) :
    seen.turnsOf group index ++ (u.share cycle group).toList.filter (·.isOf group index) =
      Share.row unit group index w ((w.subwavefrontCount? lanes).getD 0)
        (((seen.job.bench u).cycled order cycle group).unit.turnsTaken index) := by
  have runs := (covered.follows.units unit u resident).1
  have sound := covered.follows.owned.sound unit u resident
  have count : ((seen.job.bench u).cycled order cycle group).unit.turnsTaken index =
      u.turnsTaken index + weight (u.share cycle group) fun s =>
        if s.index = index then 1 else 0 :=
    ComputeUnit.Follows.turnsTaken_cycled (b := seen.job.bench u) runs sound
  rw [count, some_turns]
  rcases shared : u.share cycle group with _ | s
  · simp [weight]
  · obtain ⟨rfl, rfl, place, below, before⟩ :=
      covered.follows.share_eq resident (covered.serves unit u resident) held listed shared
    by_cases same : s.index = index
    · subst same
      cases place.symm.trans here
      simp [weight, Share.isOf, ← Share.row_append below before]
    · simp [weight, Share.isOf, same]

/-- When a unit has worked, the wavefronts of its group have had the turns they should have had. -/
theorem Covered.taken_worked (covered : Covered p lanes seen) (kept : .end ∉ p.kinds)
    (resident : seen.job.device.cluster.units[unit]? = some u) (held : u.group = some g.id)
    (found : seen.job.launch.groups[g.id]? = some g) (runs : g.phase = .running unit)
    {ws : List Wavefront} (listed : seen.job.launch.wavefrontsOf g.id = .ok ws)
    (here : ws[index]? = some w) {seen' : Watched SyntheticProgram μ π} {h : WorkGroup}
    (job : seen'.job = seen.job.stepped unit u g)
    (log : seen'.log = seen.log ++ (u.share seen.job.device.cycle g.id).toList)
    (found' : seen'.job.launch.groups[g.id]? = some h) :
    Taken p lanes seen' g.id index w h.phase := by
  let bench := (seen.job.bench u).cycled u.order seen.job.device.cycle g.id
  have before := covered.taken g.id g ws index w found listed here
  rw [runs] at before
  cases before with
  | @running _ u' resident' some_turns =>
      cases resident.symm.trans resident'
      have turns : seen'.turnsOf g.id index = Share.row unit g.id index w
          ((w.subwavefrontCount? lanes).getD 0) (bench.unit.turnsTaken index) := by
        rw [turnsOf, log, List.filter_append]
        exact covered.turnsOf_worked resident held listed here some_turns
      have settled : seen'.job.device.cluster.units[unit]? = some bench.unit.release.2 := by
        rw [job, Job.getElem?_stepped resident, if_pos rfl]
      rw [job, Job.getElem?_groups_stepped found] at found'
      cases drained : bench.unit.isDrained with
      | true =>
          rw [if_pos ⟨rfl, drained⟩] at found'
          cases found'
          refine .done (turns.trans ?_)
          obtain rfl : seen.job.device.cluster.isa = p := covered.follows.isa
          obtain ⟨follows, width⟩ := covered.follows.units unit u resident
          have sound := covered.follows.owned.sound unit u resident
          have finishes : bench.unit.Finishes seen.job.device.cluster.isa :=
            ComputeUnit.Finishes.cycled (b := seen.job.bench u) (covered.finishes unit u resident)
              follows sound kept
          have place : ws[index]? = bench.unit.wavefronts[index]?.map (·.wavefront) :=
            ((covered.serves unit u resident).cycled _ _ _).getElem?_eq
              ((Bench.cycled_group ..).trans held) listed index
          obtain ⟨r, found, rfl⟩ := Option.map_eq_some_iff.mp (place.symm.trans here)
          rw [finishes.turnsTaken_eq (Bench.sound_cycled _ _ _ sound) drained found,
            ComputeUnit.turnsAt_of_found found, ComputeUnit.lanes_cycled]
          exact width ▸ rfl
      | false =>
          rw [if_neg fun both => ne_true_of_eq_false drained both.2] at found'
          cases found.symm.trans found'
          rw [Job.release_of_not_drained drained] at settled
          rw [runs]
          exact .running settled turns

/-- A unit that works takes a turn for a wavefront of its group. -/
theorem Covered.works (covered : Covered p lanes seen) (works : seen.job.Works unit after)
    (kept : .end ∉ p.kinds) :
    Covered p lanes { job := after, notes := seen.notes ++ (visit? seen unit).toList } := by
  have follows := works.follows covered.follows kept
  have shape := works.sameRun.shape
  obtain rfl : seen.job.device.cluster.isa = p := covered.follows.isa
  cases works with
  | @intro u g resident held found runs =>
      let v : Visit SyntheticProgram μ :=
        { unit := u, isa := seen.job.device.cluster.isa, memory := seen.job.device.cluster.memory
          cycle := seen.job.device.cycle }
      have visit : seen.visit? unit = some v := by rw [visit?, resident]; rfl
      have share : v.share? = u.share seen.job.device.cycle g.id := by
        rw [Visit.share?, held]; rfl
      obtain ⟨ws, listed⟩ : ∃ ws, seen.job.launch.wavefrontsOf g.id = .ok ws :=
        ⟨_, NdRange.wavefrontsOf_of_found found⟩
      have sound := covered.follows.owned.sound unit u resident
      obtain ⟨runs', width⟩ := covered.follows.units unit u resident
      have shared : ∀ s ∈ v.share?.toList, s.unit = unit ∧ s.group = g.id ∧
          ws[s.index]? = some s.wavefront ∧
          s.turn < (s.wavefront.subwavefrontCount? lanes).getD 0 := by
        intro s member
        rw [share, Option.mem_toList] at member
        obtain ⟨unit_eq, group_eq, place, below, -⟩ :=
          covered.follows.share_eq resident (covered.serves unit u resident) held listed member
        exact ⟨unit_eq, group_eq, place, below⟩
      have units := Job.getElem?_stepped (g := g) resident
      have log := log_visited seen (seen.job.stepped unit u g) v
      rw [visit, Option.toList_some]
      refine ⟨follows, ⟨unit, _, (units unit).trans (if_pos rfl)⟩, ?_, ?_, ?_, ?_, ?_, ?_, ?_, ?_,
        fun w member => ?_⟩
      · have serves := Job.forall_units (P := fun _ v => v.Serves seen.job.launch) units
          ((covered.serves unit u resident).cycled u.order seen.job.device.cycle g.id).release
          covered.serves
        exact fun other v found => (serves other v found).congr shape
      · exact Job.forall_units (P := fun _ v => v.Finishes seen.job.device.cluster.isa) units
          (ComputeUnit.Finishes.cycled (b := seen.job.bench u) (covered.finishes unit u resident)
            runs' sound kept).release covered.finishes
      · intro s member
        rw [log] at member
        rw [units]
        rcases List.mem_append.mp member with old | new
        · split
          · exact ⟨_, rfl⟩
          · exact covered.units s old
        · rw [if_pos (shared s new).1]
          exact ⟨_, rfl⟩
      · intro s member
        rw [log] at member
        rw [shape.wavefrontsOf]
        rcases List.mem_append.mp member with old | new
        · exact covered.known s old
        · obtain ⟨-, group, place, below⟩ := shared s new
          exact ⟨below, ws, group ▸ listed, place⟩
      · rw [shape.wavefrontsOf]
        intro group h ws' index w here listed' place
        by_cases same : group = g.id
        · subst same
          exact covered.taken_worked kept resident held found runs listed' place rfl
            (share ▸ log) here
        · rw [Job.getElem?_groups_stepped found, if_neg fun both => same both.1] at here
          have others : v.share?.toList.filter (·.isOf group index) = [] :=
            List.filter_eq_nil_iff.mpr fun s new => by
              simp [Share.isOf, (shared s new).2.1, Ne.symm same]
          refine (covered.taken group h ws' index w here listed' place).congr ?_
            fun other v running found' => ?_
          · rw [turnsOf, log, List.filter_append, others, List.append_nil]
            rfl
          · -- A unit that runs this group holds no other.
            have differs : other ≠ unit := by
              rintro rfl
              have holds := (covered.follows.owned.owners other group).mpr ⟨h, here, running⟩
              exact same (holds.group_eq ⟨u, resident, held⟩)
            exact (units other).trans ((if_neg differs).trans found')
      · rw [issues_visited, log, List.flatMap_append, ← covered.issues,
          v.issues_eq sound held, width]
      · rw [asked_visited, log, List.flatMap_append, ← covered.asked,
          v.asked_eq sound runs' held, width]
      · let given := v.share?.toList.flatMap (·.issues u.lanes.length)
        let worked := ((seen.job.bench u).cycled u.order seen.job.device.cycle g.id).unit
        have ops : worked.ops = u.ops + given.length := by
          rw [show given = (u.share seen.job.device.cycle g.id).toList.flatMap
            (·.issues u.lanes.length) by rw [← share]]
          exact ComputeUnit.Sound.ops_cycled (b := seen.job.bench u) sound
        have sums : ((seen.job.stepped unit u g).device.units.map (·.ops)).sum + u.ops =
            (seen.job.device.units.map (·.ops)).sum + worked.release.2.ops :=
          Job.sum_units_of_change resident units (·.ops)
        rw [ComputeUnit.ops_release, ops, covered.counted] at sums
        rw [issues_visited, List.length_append, v.issues_eq sound held]
        show ((seen.job.stepped unit u g).device.units.map (·.ops)).sum = _ + given.length
        omega
      · rcases List.mem_append.mp member with old | new
        · exact covered.visits w old
        · rw [List.mem_singleton.mp new]
          exact ⟨rfl, sound, runs', width, g.id, held⟩

/-! ## Runs -/

/-- What a device is at work on, its events and its cycles make no difference. -/
theorem Covered.withDevice (covered : Covered p lanes seen) (active : Option ActiveLaunch)
    (sink : Sink) (cycle : Nat) :
    Covered p lanes { seen with
      job := { seen.job with device := { seen.job.device with active, sink, cycle } } } where
  follows := ⟨covered.follows.owned.congr rfl rfl rfl rfl, covered.follows.isa,
    covered.follows.units, covered.follows.items⟩
  staffed := covered.staffed
  serves := covered.serves
  finishes := covered.finishes
  units := covered.units
  known := covered.known
  taken group g ws index w found listed here :=
    (covered.taken group g ws index w found listed here).congr rfl fun _ _ _ resident => resident
  issues := covered.issues
  asked := covered.asked
  counted := covered.counted
  visits := covered.visits

theorem Covered.of_hands (covered : Covered p lanes seen)
    (path : ReflTransGen Job.Hands seen.job after) : Covered p lanes { seen with job := after } := by
  induction path with
  | refl => exact covered
  | tail _ hands ih => exact ih.hands hands

/-- The units that are busy at the start of a cycle work one after the other. -/
theorem Covered.forM_stepUnit {units : List Nat} {nd : NdRange} (covered : Covered p lanes seen)
    (shape : seen.job.launch.SameShape nd) (kept : .end ∉ p.kinds) (distinct : units.Nodup)
    (busy : ∀ unit ∈ units, seen.job.device.busy.contains unit = true) :
    let after := ((units.forM stepUnit).outcome seen).2
    Covered p lanes after ∧ after.job.launch.SameShape nd := by
  induction units generalizing seen with
  | nil => exact ⟨covered, shape⟩
  | cons unit rest ih =>
      obtain ⟨fresh, distinct⟩ := List.nodup_cons.mp distinct
      have owned := covered.follows.owned
      obtain ⟨next, works, stepped⟩ := owned.stepUnit (busy unit (List.mem_cons_self ..))
      have first : (stepUnit unit).outcome seen =
          (.ok (), { job := next, notes := seen.notes ++ (visit? seen unit).toList }) := by
        rw [stepUnit_outcome, stepped]
      have still : ∀ other ∈ rest, next.device.busy.contains other = true := by
        intro other member
        have differs : other ≠ unit := by
          rintro rfl
          exact fresh member
        exact (works.busy_iff owned differs).mpr (busy other (List.mem_cons_of_mem _ member))
      show let after := ((stepUnit unit >>= fun _ => rest.forM stepUnit).outcome seen).2
        Covered p lanes after ∧ after.job.launch.SameShape nd
      rw [Attempt.outcome_bind_of_ok first]
      exact ih (covered.works works kept) (works.sameRun.shape.trans shape) distinct still

/-- Whatever becomes of the loop of a run, wavefronts have had the turns that they should have had. -/
theorem keeps_covered_drive (kept : .end ∉ p.kinds) (nd : NdRange) (room : Nat)
    (budget : Option Nat) :
    Attempt.Keeps (fun seen : Watched SyntheticProgram μ π =>
      Covered p lanes seen ∧ seen.job.launch.SameShape nd) (drive Watched.advance room budget) := by
  refine keeps_drive (fun seen both => both.1.follows.owned) ?_ ?_ ?_ ?_ room budget
  · rintro seen ⟨covered, shape⟩
    obtain ⟨placed, done, path, -⟩ := covered.follows.owned.place
    obtain ⟨-, same, -⟩ := covered.follows.owned.of_hands path
    rw [onJob_outcome, done]
    exact ⟨covered.of_hands path, same.shape.trans shape⟩
  · rintro seen ⟨covered, shape⟩ -
    obtain ⟨distinct, members⟩ := covered.follows.owned.busy_toList
    have ticked : Covered p lanes { seen with job := seen.job.ticked } := covered.withDevice _ _ _
    exact ticked.forM_stepUnit shape kept distinct fun unit => (members unit).mp
  · rintro seen ⟨covered, shape⟩
    exact ⟨covered.withDevice _ _ _, shape⟩
  · rintro seen ⟨covered, shape⟩
    exact ⟨covered.withDevice _ _ _, shape⟩

theorem keeps_covered_runWithin (kept : .end ∉ p.kinds) (nd : NdRange) (budget : Option Nat) :
    Attempt.Keeps (fun seen : Watched SyntheticProgram μ π =>
      Covered p lanes seen ∧ seen.job.launch.SameShape nd) (runWithin Watched.advance budget) := by
  refine keeps_runWithin ?_ fun room => keeps_covered_drive kept nd room budget
  rintro seen ⟨covered, shape⟩
  rw [onJob_outcome]
  rcases seen.job.begin_cases with ⟨e, refused⟩ | ⟨goes_on, -⟩ | ⟨begins, -⟩
  · rw [refused]
    exact ⟨covered, shape⟩
  · rw [goes_on]
    exact ⟨covered, shape⟩
  · rw [begins]
    exact ⟨covered.withDevice _ _ _, shape⟩

/-! ## The first and the last job -/

/-- Nothing has been taken before the first run. -/
theorem Covered.fresh {id : Nat} {config : DeviceConfig} {memory : μ} {placement : π}
    {device : Device SyntheticProgram μ π}
    (built : Device.build id config p memory placement = .ok device)
    (small : config.wavefrontSize < countBound) (reliable : Placement.Reliable placement)
    {launch number : Nat} {kernelName : String} {globalSize localSize : Dim3}
    {wavefrontSize : Nat} {nd : NdRange}
    (made : NdRange.create launch number kernelName globalSize localSize wavefrontSize = .ok nd)
    (order : StageOrder) (sink : Sink) :
    Covered p config.streamCores { job := Job.fresh device order sink nd, notes := [] } := by
  have follows := Job.Follows.fresh built small reliable made order sink
  have units := Device.getElem?_of_build built order
  obtain ⟨valid, -⟩ := Device.build_eq_ok built
  obtain ⟨positive, -⟩ := DeviceConfig.validate_eq_ok valid
  obtain ⟨-, -, itemCount, groupSize, -, -, rfl⟩ := NdRange.create_eq_ok made
  refine ⟨follows, ⟨0, _, (units 0 _).mpr ⟨positive, rfl⟩⟩, fun unit u found group _ held => ?_,
    fun unit u found index r here => ?_, nofun, nofun, fun group g _ _ _ found _ _ => ?_, rfl, rfl,
    ?_, fun _ member => absurd member List.not_mem_nil⟩
  · obtain ⟨-, rfl⟩ := (units unit u).mp found
    cases held
  · obtain ⟨-, rfl⟩ := (units unit u).mp found
    cases here
  · obtain ⟨-, rfl⟩ := NdRange.getElem?_groups_cut found
    exact .pending rfl
  · refine List.sum_eq_zero fun n member => ?_
    obtain ⟨u, here, rfl⟩ := List.mem_map.mp member
    obtain ⟨unit, found⟩ := List.getElem?_of_mem here
    rw [Device.units, Array.getElem?_toList] at found
    obtain ⟨-, rfl⟩ := (units unit u).mp found
    simp [ComputeUnit.ops, ComputeUnit.create, Function.comp_def]

/-- When a run is over every wavefront has had all its turns. -/
theorem Covered.whole {g : WorkGroup} (covered : Covered p lanes seen)
    (quiet : Job.Quiet seen.job) (found : seen.job.launch.groups[group]? = some g)
    {ws : List Wavefront} (listed : seen.job.launch.wavefrontsOf group = .ok ws)
    (here : ws[index]? = some w) :
    ∃ unit, seen.turnsOf group index = Share.row unit group index w
      ((w.subwavefrontCount? lanes).getD 0)
      (p.length * (w.subwavefrontCount? lanes).getD 0) := by
  obtain ⟨unit, u, resident⟩ := covered.staffed
  have taken := covered.taken group g ws index w found listed here
  obtain ⟨runner, ended⟩ := quiet.exists_done covered.follows.owned resident found
  rw [ended] at taken
  cases taken with
  | done all_turns => exact ⟨_, all_turns⟩

end Watched

end Accelerator
