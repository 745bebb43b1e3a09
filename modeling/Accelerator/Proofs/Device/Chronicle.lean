import Accelerator.Proofs.Device.Completion
import Accelerator.Proofs.Device.Resumption
import Accelerator.Proofs.Pipeline.Chronicle

/-!
# What a device tells of a wavefront

Numbers of wavefronts are unique in a launch, so that the trace can be read wavefront by wavefront.
`Job.Recorded` says how far it has come for each of them: nothing is told while the group of the
wavefront waits, the unit of the group tells what it does, and in the end every instruction of the
program has been told from its issue to its write-back.
-/

namespace Accelerator

/-! ## What has been recorded -/

namespace Sink

/-- Every event is kept. -/
def KeepsAll (s : Sink) : Prop := ∃ events, s = .keep true events

/-- The events kept about a wavefront, in the order in which they were recorded. -/
def eventsAbout (s : Sink) (wavefront : Nat) : List TraceEvent :=
  TraceEvent.about wavefront s.events.toList

variable {s : Sink} {wavefront : Nat}

theorem KeepsAll.flush_eq (keeps : s.KeepsAll) : s.flush = s := by
  obtain ⟨events, rfl⟩ := keeps
  rfl

theorem KeepsAll.record (keeps : s.KeepsAll) (e : TraceEvent) : (s.record e).KeepsAll := by
  obtain ⟨events, rfl⟩ := keeps
  exact ⟨events.push e, rfl⟩

/-- Dispatches and completions are not about wavefronts. -/
theorem KeepsAll.eventsAbout_record (keeps : s.KeepsAll) {e : TraceEvent}
    (unrelated : e.wavefront = none) :
    (s.record e).eventsAbout wavefront = s.eventsAbout wavefront := by
  obtain ⟨events, rfl⟩ := keeps
  simp [eventsAbout, Sink.record, Sink.events, TraceEvent.about, unrelated]

theorem recordStages_keep (kept : Array TraceEvent) (events : List TraceEvent) :
    (keep true kept).recordStages events = keep true (kept ++ events.toArray) := by
  show events.foldl Sink.record (keep true kept) = _
  induction events generalizing kept with
  | nil => simp
  | cons e rest ih => simpa [Sink.record] using ih (kept.push e)

theorem KeepsAll.recordStages (keeps : s.KeepsAll) (events : List TraceEvent) :
    (s.recordStages events).KeepsAll := by
  obtain ⟨kept, rfl⟩ := keeps
  exact ⟨_, recordStages_keep kept events⟩

theorem KeepsAll.eventsAbout_recordStages (keeps : s.KeepsAll) (events : List TraceEvent)
    (wavefront : Nat) : (s.recordStages events).eventsAbout wavefront =
      s.eventsAbout wavefront ++ TraceEvent.about wavefront events := by
  obtain ⟨kept, rfl⟩ := keeps
  rw [recordStages_keep]
  simp [eventsAbout, Sink.events, TraceEvent.about]

end Sink

/-! ## Numbers of wavefronts -/

namespace NdRange

/-- No two wavefronts of the launch have the same number. -/
def Labelled (nd : NdRange) : Prop :=
  ∀ (group other : Nat) (ws ws' : List Wavefront) (i j : Nat) (w w' : Wavefront),
    nd.wavefrontsOf group = .ok ws → nd.wavefrontsOf other = .ok ws' → ws[i]? = some w →
      ws'[j]? = some w' → w.id = w'.id → group = other ∧ i = j

theorem SameShape.labelled {nd origin : NdRange} (shape : nd.SameShape origin)
    (labelled : origin.Labelled) : nd.Labelled := by
  unfold Labelled
  rw [shape.wavefrontsOf]
  exact labelled

section Cut

variable {launch id : Nat} {kernelName : String} {globalSize localSize : Dim3}
  {wavefrontSize count size : Nat}

theorem getElem?_groupWavefronts {perGroup group i : Nat} {w : Wavefront}
    (here : (groupWavefronts wavefrontSize size perGroup group)[i]? = some w) :
    i < perGroup ∧ w.id = group * perGroup + i ∧ w.group = group := by
  simp only [groupWavefronts, List.getElem?_map, Option.map_eq_some_iff] at here
  obtain ⟨number, here, rfl⟩ := here
  obtain ⟨inside, rfl⟩ := List.getElem?_eq_some_iff.mp here
  rw [List.length_range] at inside
  simp [inside]

/-- Wavefronts are numbered through all groups. -/
theorem labelled_cut :
    (cut launch id kernelName globalSize localSize wavefrontSize count size).Labelled := by
  intro group other ws ws' i j w w' listed listed' here there same
  rw [wavefrontsOf_cut (lt_of_wavefrontsOf_cut listed)] at listed
  rw [wavefrontsOf_cut (lt_of_wavefrontsOf_cut listed')] at listed'
  cases listed
  cases listed'
  obtain ⟨inside, number, -⟩ := getElem?_groupWavefronts here
  obtain ⟨inside', number', -⟩ := getElem?_groupWavefronts there
  rw [number, number'] at same
  have positive : 0 < ceilDiv size wavefrontSize := Nat.lt_of_le_of_lt (Nat.zero_le _) inside
  have groups := congrArg (· / ceilDiv size wavefrontSize) same
  simp only [Nat.mul_comm _ (ceilDiv size wavefrontSize), Nat.mul_add_div positive,
    Nat.div_eq_of_lt inside, Nat.div_eq_of_lt inside', Nat.add_zero] at groups
  refine ⟨groups, ?_⟩
  rw [groups] at same
  exact Nat.add_left_cancel same

/-- Every wavefront of a new launch is at some place of its group. -/
theorem exists_group_of_mem_cut {w : Wavefront}
    (member : w ∈ (cut launch id kernelName globalSize localSize wavefrontSize count
      size).wavefronts.toList) :
    let nd := cut launch id kernelName globalSize localSize wavefrontSize count size
    w.group < nd.groupCount ∧
      ∃ (ws : List Wavefront) (i : Nat), nd.wavefrontsOf w.group = .ok ws ∧ ws[i]? = some w := by
  intro nd
  obtain ⟨group, inside, here⟩ := List.mem_flatMap.mp member
  obtain ⟨i, here⟩ := List.getElem?_of_mem here
  obtain ⟨-, -, rfl⟩ := getElem?_groupWavefronts here
  have inside := List.mem_range.mp inside
  exact ⟨by simpa [nd, cut, groupCount] using inside, _, i, wavefrontsOf_cut inside, here⟩

end Cut

end NdRange

/-! ## Units -/

/-- Of a wavefront that comes with a new group nothing has been told. -/
theorem ComputeUnit.Tells.loaded {u : ComputeUnit} {p : SyntheticProgram} {group index : Nat}
    {w : Wavefront} {log : List TraceEvent} {wavefronts : List Wavefront} (sound : u.Sound)
    (free : u.group = none) (here : wavefronts[index]? = some w) (nothing : log = [])
    (now : Nat) : (u.loaded group wavefronts).Tells p group index w now [] log := by
  have empty := sound.slots_eq_nil free
  refine ⟨.nil _ _, nofun, ⟨{ wavefront := w }, ?_, rfl, rfl, nofun, fun _ => nothing⟩,
    fun stage slot held => ?_, fun ex working => ?_⟩
  · simp [ComputeUnit.loaded, here]
  · have member : slot ∈ u.slots := mem_slots_of_due (due_of_current held)
    rw [empty] at member
    cases member
  · have member : ex.slot ∈ u.slots := mem_slots_of_due (due_of_executing working)
    rw [empty] at member
    cases member

/-- The unit has the wavefronts of the group of a launch that it holds. -/
def ComputeUnit.Serves (u : ComputeUnit) (nd : NdRange) : Prop :=
  ∀ (group : Nat) (ws : List Wavefront), u.group = some group → nd.wavefrontsOf group = .ok ws →
    u.wavefronts.toList.map (·.wavefront) = ws

theorem ComputeUnit.Serves.congr {u : ComputeUnit} {nd origin : NdRange} (serves : u.Serves origin)
    (shape : nd.SameShape origin) : u.Serves nd := by
  unfold Serves
  rw [shape.wavefrontsOf]
  exact serves

theorem ComputeUnit.serves_loaded {nd : NdRange} {group : Nat} {wavefronts : List Wavefront}
    (u : ComputeUnit) (listed : nd.wavefrontsOf group = .ok wavefronts) :
    (u.loaded group wavefronts).Serves nd := by
  intro other ws held listed'
  cases held
  cases listed.symm.trans listed'
  simp [ComputeUnit.loaded, Function.comp_def]

theorem ComputeUnit.release_cases (u : ComputeUnit) :
    u.release.2 = u ∨ u.release.2.group = none := by
  unfold release
  split
  · split
    · exact Or.inr rfl
    · exact Or.inl rfl
  · exact Or.inl rfl

theorem ComputeUnit.map_wavefront_next (u : ComputeUnit) (cycle : Nat) (a : Answers) :
    (u.next cycle a).wavefronts.toList.map (·.wavefront) =
      u.wavefronts.toList.map (·.wavefront) := by
  apply List.ext_getElem?
  intro index
  rw [List.getElem?_map, List.getElem?_map, Array.getElem?_toList, Array.getElem?_toList,
    getElem?_next, Option.map_map]
  simp only [Function.comp_def, nextResident_wavefront]

theorem ComputeUnit.Serves.release {u : ComputeUnit} {nd : NdRange} (serves : u.Serves nd) :
    u.release.2.Serves nd := by
  intro group ws held listed
  rcases u.release_cases with same | free
  · rw [same] at held ⊢
    exact serves group ws held listed
  · cases free.symm.trans held

/-- A unit keeps its wavefronts while it works. -/
theorem ComputeUnit.Serves.cycled {μ : Type} [MemoryService μ] {b : Bench SyntheticProgram μ}
    {nd : NdRange} (serves : b.unit.Serves nd) (order : StageOrder) (cycle group : Nat) :
    (b.cycled order cycle group).unit.Serves nd := by
  intro group' ws held listed
  have held : b.unit.group = some group' := (Bench.cycled_group ..).symm.trans held
  rw [← serves group' ws held listed]
  unfold Bench.cycled
  split
  · rfl
  · exact ComputeUnit.map_wavefront_next ..

/-- The wavefront at a position of a unit is the one at that position of its group. -/
theorem ComputeUnit.Serves.getElem?_eq {u : ComputeUnit} {nd : NdRange} (serves : u.Serves nd)
    {group : Nat} (held : u.group = some group) {ws : List Wavefront}
    (listed : nd.wavefrontsOf group = .ok ws) (index : Nat) :
    ws[index]? = u.wavefronts[index]?.map (·.wavefront) := by
  rw [← serves group ws held listed, List.getElem?_map, Array.getElem?_toList]

/-- A unit that has finished its group stays as it is, and tells nothing. -/
theorem Bench.cycled_cases {μ : Type} [MemoryService μ] (b : Bench SyntheticProgram μ)
    (clear : b.events = []) (order : StageOrder) (cycle group wavefront : Nat) :
    (b.unit.isDrained = true ∧ (b.cycled order cycle group).unit = b.unit ∧
        TraceEvent.about wavefront (b.cycled order cycle group).events = []) ∨
      ((b.cycled order cycle group).unit =
          b.unit.next cycle (b.unit.asked b.isa b.memory cycle) ∧
        TraceEvent.about wavefront (b.cycled order cycle group).events =
          b.unit.news order cycle group (b.unit.asked b.isa b.memory cycle) wavefront) := by
  unfold Bench.cycled
  split
  next drained =>
    left
    rw [clear]
    exact ⟨drained, rfl, rfl⟩
  next =>
    right
    rw [Bench.after_of_stateless SyntheticProgram.stateless, clear]
    exact ⟨rfl, rfl⟩

namespace Job

open Relation

variable {μ π : Type} {p : SyntheticProgram} {lanes unit group index : Nat} {w : Wavefront}
  {late : List Nat} {job after : Job SyntheticProgram μ π}

/-! ## Told in every phase -/

/-- The events kept about a wavefront. -/
abbrev log (job : Job SyntheticProgram μ π) (w : Wavefront) : List TraceEvent :=
  job.device.sink.eventsAbout w.id

/-- What has been told of the wavefront at a position of a group that is in some phase. The units in
`late` have yet to work in this cycle. -/
inductive Told (p : SyntheticProgram) (lanes : Nat) (late : List Nat)
    (job : Job SyntheticProgram μ π) (group index : Nat) (w : Wavefront) : Phase → Prop
  | pending (nothing : job.log w = []) : Told p lanes late job group index w .pending
  | running {unit : Nat} {u : ComputeUnit} {now : Nat} {done : List Passage}
      (resident : job.device.cluster.units[unit]? = some u) (past : now ≤ job.device.cycle)
      (early : unit ∈ late → now < job.device.cycle)
      (tells : u.Tells p group index w now done (job.log w)) :
      Told p lanes late job group index w (.running unit)
  | done {unit : Nat} {done : List Passage}
      (journey : Journey p ((w.subwavefrontCount? lanes).getD 0) done)
      (whole : done.length = p.length)
      (told : job.log w = Passage.tale ⟨unit, group, w.id⟩ p.length done) :
      Told p lanes late job group index w (.done unit)

/-- Nothing changes for a wavefront of which nothing is told while its unit rests. -/
theorem Told.congr {phase : Phase} {later : List Nat}
    (told : Told p lanes late job group index w phase) (log : after.log w = job.log w)
    (cycle : after.device.cycle = job.device.cycle) (fewer : ∀ unit ∈ later, unit ∈ late)
    (units : ∀ unit u, phase = .running unit → job.device.cluster.units[unit]? = some u →
      after.device.cluster.units[unit]? = some u) :
    Told p lanes later after group index w phase := by
  cases told with
  | pending nothing => exact .pending (log.trans nothing)
  | running resident past early tells =>
      refine .running (units _ _ rfl resident) (cycle ▸ past) (fun member => ?_) (log ▸ tells)
      rw [cycle]
      exact early (fewer _ member)
  | done journey whole told => exact .done journey whole (log.trans told)

/-- When a unit is drained everything has been told of the wavefronts of its group. -/
theorem Told.of_drained {u : ComputeUnit} {now : Nat} {done : List Passage}
    (tells : u.Tells p group index w now done (job.log w)) (sound : u.Sound)
    (drained : u.isDrained = true) (id : u.id = unit) (width : u.lanes.length = lanes) :
    Told p lanes late job group index w (.done unit) := by
  obtain ⟨whole, told⟩ := tells.whole sound drained
  obtain ⟨r, found, rfl, -⟩ := tells.resident
  have turns : u.turnsAt index = (r.wavefront.subwavefrontCount? lanes).getD 0 := by
    rw [ComputeUnit.turnsAt_of_found found, width]
  exact .done (turns ▸ tells.journey) whole (id ▸ told)

variable [Placement π]

/-- Every event has been kept, and tells of each wavefront what it should. -/
structure Recorded (p : SyntheticProgram) (lanes : Nat) (late : List Nat)
    (job : Job SyntheticProgram μ π) : Prop where
  follows : job.Follows p lanes
  keeps : job.device.sink.KeepsAll
  labelled : job.launch.Labelled
  /-- There is somebody to do the work. -/
  staffed : ∃ (unit : Nat) (u : ComputeUnit), job.device.cluster.units[unit]? = some u
  serves : ∀ (unit : Nat) (u : ComputeUnit), job.device.cluster.units[unit]? = some u →
    u.Serves job.launch
  told : ∀ (group : Nat) (g : WorkGroup) (ws : List Wavefront) (index : Nat) (w : Wavefront),
    job.launch.groups[group]? = some g → job.launch.wavefrontsOf group = .ok ws →
      ws[index]? = some w → Told p lanes late job group index w g.phase

/-! ## Dispatch -/

/-- Of the wavefronts of a group that is handed out nothing has been told so far. -/
theorem Recorded.hands (recorded : Recorded p lanes [] job) (hands : job.Hands after) :
    Recorded p lanes [] after := by
  have follows := hands.follows recorded.follows
  have shape := hands.sameRun.shape
  cases hands with
  | @intro placement unit u g rest wavefronts reliable pending found waits listed resident free =>
      have units : ∀ other,
          (job.handed placement unit u g rest wavefronts).device.cluster.units[other]? =
          if other = unit then some (u.loaded g.id wavefronts)
          else job.device.cluster.units[other]? := getElem?_setUnit resident
      have log : ∀ w, (job.handed placement unit u g rest wavefronts).log w = job.log w :=
        fun w => recorded.keeps.eventsAbout_record rfl
      refine ⟨follows, recorded.keeps.record _, shape.labelled recorded.labelled,
        ⟨unit, _, (units unit).trans (if_pos rfl)⟩, ?_, ?_⟩
      · have serves := forall_units (P := fun _ v => v.Serves job.launch) units
          (u.serves_loaded listed) recorded.serves
        exact fun other v found => (serves other v found).congr shape
      · rw [shape.wavefrontsOf]
        intro group h ws index w here listed' place
        have started : (job.handed placement unit u g rest wavefronts).launch.groups[group]? =
            if group = g.id then some { g with phase := .running unit }
            else job.launch.groups[group]? := NdRange.getElem?_start found group
        rw [started] at here
        by_cases same : group = g.id
        · subst same
          rw [if_pos rfl] at here
          cases here
          cases listed.symm.trans listed'
          have before := recorded.told g.id g wavefronts index w found listed place
          rw [waits] at before
          cases before with
          | pending nothing =>
              exact .running ((units unit).trans (if_pos rfl)) (Nat.zero_le _) nofun
                (.loaded (recorded.follows.owned.sound unit u resident) free place
                  ((log w).trans nothing) 0)
        · rw [if_neg same] at here
          refine (recorded.told group h ws index w here listed' place).congr (log w) rfl
            (fun _ member => member) fun other v runs found' => ?_
          -- A unit with a group of its own is not the one that is given another.
          have differs : other ≠ unit := by
            rintro rfl
            obtain ⟨v', resident', held⟩ :=
              (recorded.follows.owned.owners other group).mpr ⟨h, here, runs⟩
            cases resident.symm.trans resident'
            cases free.symm.trans held
          rw [units, if_neg differs, found']

/-! ## Work -/

/-- The wavefront at a position of a unit is the one at that position of its group. -/
theorem Recorded.getElem?_wavefronts {u : ComputeUnit} (recorded : Recorded p lanes late job)
    (resident : job.device.cluster.units[unit]? = some u) (held : u.group = some group)
    {ws : List Wavefront} (listed : job.launch.wavefrontsOf group = .ok ws) {r : Resident}
    (found : u.wavefronts[index]? = some r) : ws[index]? = some r.wavefront := by
  rw [(recorded.serves unit u resident).getElem?_eq held listed, found, Option.map_some]

/-- No two wavefronts of a unit have the same number. -/
theorem Recorded.labelled_unit {u : ComputeUnit} (recorded : Recorded p lanes late job)
    (resident : job.device.cluster.units[unit]? = some u) (held : u.group = some group)
    {ws : List Wavefront} (listed : job.launch.wavefrontsOf group = .ok ws) : u.Labelled := by
  intro i j r r' found found' same
  exact (recorded.labelled group group ws ws i j _ _ listed listed
    (recorded.getElem?_wavefronts resident held listed found)
    (recorded.getElem?_wavefronts resident held listed found') same).2

/-- A unit tells nothing of the wavefronts of other groups. -/
theorem Recorded.news_of_other {u : ComputeUnit} (recorded : Recorded p lanes late job)
    (resident : job.device.cluster.units[unit]? = some u) (held : u.group = some group)
    {ws ws' : List Wavefront} (listed : job.launch.wavefrontsOf group = .ok ws) {other : Nat}
    (listed' : job.launch.wavefrontsOf other = .ok ws') (here : ws'[index]? = some w)
    (differs : other ≠ group) (order : StageOrder) (cycle : Nat) (a : Answers) :
    u.news order cycle group a w.id = [] := by
  refine ComputeUnit.news_eq_nil order fun stage slot handled same => ?_
  obtain ⟨r, found, wavefront⟩ :=
    (recorded.follows.owned.sound unit u resident).resident_of_handled handled
  have place := recorded.getElem?_wavefronts resident held listed found
  exact differs (recorded.labelled other group ws' ws _ _ _ _ listed' listed here place
    (same.symm.trans wavefront)).1

section Work

variable [MemoryService μ] {u : ComputeUnit} {g : WorkGroup}

/-- What is told of a wavefront once a unit has worked. -/
theorem Recorded.log_stepped (recorded : Recorded p lanes late job) (unit : Nat)
    (u : ComputeUnit) (g : WorkGroup) :
    (job.stepped unit u g).device.sink.KeepsAll ∧ ∀ w, (job.stepped unit u g).log w =
      job.log w ++ TraceEvent.about w.id
        ((job.bench u).cycled u.order job.device.cycle g.id).events := by
  let events := ((job.bench u).cycled u.order job.device.cycle g.id).events
  have keeps := recorded.keeps.recordStages events
  have told := recorded.keeps.eventsAbout_recordStages events
  rcases job.stepped_cases unit u g with ⟨-, stepped⟩ | ⟨-, stepped⟩
  · rw [stepped]
    exact ⟨keeps.record _, fun w => (keeps.eventsAbout_record rfl).trans (told w.id)⟩
  · rw [stepped]
    exact ⟨keeps, fun w => told w.id⟩

/-- A unit that works tells what happens to the wavefronts of its group. -/
theorem Recorded.tells_cycled (recorded : Recorded p lanes late job) (kept : .end ∉ p.kinds)
    (resident : job.device.cluster.units[unit]? = some u) (held : u.group = some g.id)
    {ws : List Wavefront} (listed : job.launch.wavefrontsOf g.id = .ok ws) {now : Nat}
    (early : now < job.device.cycle) {done : List Passage}
    (tells : u.Tells p g.id index w now done (job.log w)) :
    ∃ done, ((job.bench u).cycled u.order job.device.cycle g.id).unit.Tells p g.id index w
      job.device.cycle done ((job.stepped unit u g).log w) := by
  have sound := recorded.follows.owned.sound unit u resident
  rw [(recorded.log_stepped unit u g).2]
  rcases (job.bench u).cycled_cases rfl u.order job.device.cycle g.id w.id with
    ⟨-, same, nothing⟩ | ⟨next, news⟩
  · rw [same, nothing, List.append_nil]
    exact ⟨done, tells.mono early.le⟩
  · have isa : (job.bench u).isa = p := recorded.follows.isa
    rw [next, news, isa]
    exact tells.next (job.bench u).memory sound (recorded.labelled_unit resident held listed)
      u.order (recorded.follows.units unit u resident).1 early kept

/-- A unit that has worked has told what it did, and only the others have yet to. -/
theorem Recorded.works {rest : List Nat} (recorded : Recorded p lanes (unit :: rest) job)
    (works : job.Works unit after) (fresh : unit ∉ rest) (kept : .end ∉ p.kinds) :
    Recorded p lanes rest after := by
  have follows := works.follows recorded.follows kept
  have shape := works.sameRun.shape
  have cycle := works.cycle_eq
  cases works with
  | @intro u g resident held found runs =>
      have listed := NdRange.wavefrontsOf_of_found found
      obtain ⟨keeps, log⟩ := recorded.log_stepped unit u g
      have units := getElem?_stepped (g := g) resident
      have sound : ((job.bench u).cycled u.order job.device.cycle g.id).unit.Sound :=
        Bench.sound_cycled _ _ _ (recorded.follows.owned.sound unit u resident)
      refine ⟨follows, keeps, shape.labelled recorded.labelled,
        ⟨unit, _, (units unit).trans (if_pos rfl)⟩, ?_, ?_⟩
      · have serves := forall_units (P := fun _ v => v.Serves job.launch) units
          ((recorded.serves unit u resident).cycled u.order job.device.cycle g.id).release
          recorded.serves
        exact fun other v found => (serves other v found).congr shape
      · rw [shape.wavefrontsOf]
        intro group h ws' index w here listed' place
        rw [getElem?_groups_stepped found] at here
        -- The unit tells of the wavefronts of its own group, and of no others.
        by_cases same : group = g.id
        · subst same
          have before := recorded.told g.id g ws' index w found listed' place
          rw [runs] at before
          cases before with
          | running resident' past early tells =>
              cases resident.symm.trans resident'
              obtain ⟨done, tells⟩ := recorded.tells_cycled kept resident held listed'
                (early (List.mem_cons_self ..)) tells
              have settled := (units unit).trans (if_pos rfl)
              cases drained :
                ((job.bench u).cycled u.order job.device.cycle g.id).unit.isDrained with
              | true =>
                  rw [if_pos ⟨rfl, drained⟩] at here
                  cases here
                  have width := (follows.units unit _ settled).2
                  rw [ComputeUnit.lanes_release] at width
                  have id := (Bench.cycled_id u.order job.device.cycle g.id (job.bench u)).trans
                    (recorded.follows.owned.numbered unit u resident)
                  exact .of_drained tells sound drained id width
              | false =>
                  rw [if_neg fun both => ne_true_of_eq_false drained both.2] at here
                  cases found.symm.trans here
                  rw [release_of_not_drained drained] at settled
                  rw [runs]
                  exact .running settled cycle.ge (fun member => absurd member fresh) tells
        · rw [if_neg fun both => same both.1] at here
          refine (recorded.told group h ws' index w here listed' place).congr ?_ cycle
            (fun _ member => List.mem_cons_of_mem _ member) fun other v running found' => ?_
          · rw [log]
            rcases (job.bench u).cycled_cases rfl u.order job.device.cycle g.id w.id with
              ⟨-, -, nothing⟩ | ⟨-, news⟩
            · rw [nothing, List.append_nil]
            · rw [news]
              exact (congrArg _ (recorded.news_of_other resident held listed listed' place same
                ..)).trans (List.append_nil _)
          · -- A unit that runs this group holds no other.
            have differs : other ≠ unit := by
              rintro rfl
              have holds := (recorded.follows.owned.owners other group).mpr ⟨h, here, running⟩
              exact same (holds.group_eq ⟨u, resident, held⟩)
            rw [units, if_neg differs, found']

end Work

/-! ## Runs -/

theorem Recorded.of_hands (recorded : Recorded p lanes [] job)
    (path : ReflTransGen Hands job after) : Recorded p lanes [] after := by
  induction path with
  | refl => exact recorded
  | tail _ hands ih => exact ih.hands hands

/-- A new cycle begins, in which some units have yet to work. -/
theorem Recorded.ticked (recorded : Recorded p lanes [] job) (late : List Nat) :
    Recorded p lanes late job.ticked where
  follows := ⟨recorded.follows.owned.ticked, recorded.follows.isa, recorded.follows.units,
    recorded.follows.items⟩
  keeps := recorded.keeps
  labelled := recorded.labelled
  staffed := recorded.staffed
  serves := recorded.serves
  told group g ws index w found listed here := by
    have told := recorded.told group g ws index w found listed here
    generalize g.phase = phase at told ⊢
    cases told with
    | pending nothing => exact .pending nothing
    | running resident past early tells =>
        exact .running resident (Nat.le_succ_of_le past) (fun _ => Nat.lt_succ_of_le past) tells
    | done journey whole told => exact .done journey whole told

/-- The launch on which the device is at work makes no difference. -/
theorem Recorded.withActive (recorded : Recorded p lanes [] job) (active : Option ActiveLaunch) :
    Recorded p lanes [] { job with device := { job.device with active } } where
  follows := ⟨recorded.follows.owned.congr rfl rfl rfl rfl, recorded.follows.isa,
    recorded.follows.units, recorded.follows.items⟩
  keeps := recorded.keeps
  labelled := recorded.labelled
  staffed := recorded.staffed
  serves := recorded.serves
  told group g ws index w found listed here :=
    (recorded.told group g ws index w found listed here).congr rfl rfl (fun _ member => member)
      fun _ _ _ resident => resident

/-- What has been kept is not sent on. -/
theorem Recorded.flushed_eq (recorded : Recorded p lanes late job) : job.flushed = job := by
  rw [flushed, recorded.keeps.flush_eq]

theorem Recorded.finished (recorded : Recorded p lanes [] job) :
    Recorded p lanes [] job.finished := by
  rw [Job.finished, recorded.keeps.flush_eq]
  exact recorded.withActive none

section Runs

variable [MemoryService μ]

/-- After a cycle all units have told what they did in it. -/
theorem Recorded.of_sweeps {units : List Nat} (recorded : Recorded p lanes units job)
    (sweeps : Sweeps units job after) (distinct : units.Nodup) (kept : .end ∉ p.kinds) :
    Recorded p lanes [] after := by
  induction sweeps with
  | nil => exact recorded
  | cons works _ ih =>
      obtain ⟨fresh, distinct⟩ := List.nodup_cons.mp distinct
      exact ih (recorded.works works fresh kept) distinct

/-- Whatever becomes of a run, everything it does is recorded. -/
theorem keeps_recorded_runWithin (kept : .end ∉ p.kinds) (nd : NdRange) (budget : Option Nat) :
    Attempt.Keeps (fun job : Job SyntheticProgram μ π =>
      Recorded p lanes [] job ∧ job.launch.SameShape nd) (runWithin budget) := by
  refine Attempt.Keeps.bind ?_ fun _ => Attempt.keeps_get.bind fun _ => ?_
  · rintro job ⟨recorded, shape⟩
    rcases job.begin_cases with ⟨e, refused⟩ | ⟨goes_on, -⟩ | ⟨begins, -⟩
    · rw [refused]
      exact ⟨recorded, shape⟩
    · rw [goes_on]
      exact ⟨recorded, shape⟩
    · rw [begins]
      exact ⟨recorded.withActive _, shape⟩
  rw [drive_eq_driveWith]
  refine keeps_driveWith ?_ ?_ ?_ ?_ _ _
  · rintro job ⟨recorded, shape⟩
    obtain ⟨placed, done, path, -⟩ := recorded.follows.owned.place
    obtain ⟨-, same, -⟩ := recorded.follows.owned.of_hands path
    rw [done]
    exact ⟨recorded.of_hands path, same.shape.trans shape⟩
  · rintro job ⟨recorded, shape⟩
    obtain ⟨busy, listed⟩ := recorded.follows.owned.busyListed
    obtain ⟨next, sweeps, advanced⟩ := recorded.follows.owned.advance
    obtain ⟨-, same, -⟩ := recorded.follows.owned.of_sweeps sweeps
    rw [listed.toList_eq] at sweeps
    rw [← advance_eq_advanceWith, advanced]
    exact ⟨(recorded.ticked busy).of_sweeps sweeps listed.distinct kept, same.shape.trans shape⟩
  · rintro job ⟨recorded, shape⟩
    exact ⟨recorded.finished, shape⟩
  · rintro job ⟨recorded, shape⟩
    rw [suspend_outcome, recorded.flushed_eq]
    exact ⟨recorded, shape⟩

theorem Recorded.afterRuns {nd : NdRange} (recorded : Recorded p lanes [] job)
    (shape : job.launch.SameShape nd) (kept : .end ∉ p.kinds) (budgets : List (Option Nat)) :
    Recorded p lanes [] (job.afterRuns budgets) ∧
      (job.afterRuns budgets).launch.SameShape nd :=
  keeps_afterRuns (keeps_recorded_runWithin kept nd) ⟨recorded, shape⟩ budgets

end Runs

/-! ## The first and the last job -/

section Fresh

variable {id : Nat} {config : DeviceConfig} {memory : μ} {placement : π}
  {device : Device SyntheticProgram μ π} {launch number : Nat} {kernelName : String}
  {globalSize localSize : Dim3} {wavefrontSize : Nat} {nd : NdRange}

/-- Nothing is told before the first run. -/
theorem Recorded.fresh (built : Device.build id config p memory placement = .ok device)
    (small : config.wavefrontSize < countBound) (reliable : Placement.Reliable placement)
    (made : NdRange.create launch number kernelName globalSize localSize wavefrontSize = .ok nd)
    (order : StageOrder) :
    Recorded p config.streamCores [] (Job.fresh device order .keepAll nd) := by
  have follows := Follows.fresh built small reliable made order .keepAll
  have units := Device.getElem?_of_build built order
  obtain ⟨valid, -⟩ := Device.build_eq_ok built
  obtain ⟨positive, -⟩ := DeviceConfig.validate_eq_ok valid
  obtain ⟨-, -, itemCount, groupSize, -, -, rfl⟩ := NdRange.create_eq_ok made
  refine ⟨follows, ⟨_, rfl⟩, NdRange.labelled_cut, ⟨0, _, (units 0 _).mpr ⟨positive, rfl⟩⟩,
    fun unit u found group _ held => ?_, fun group g _ _ _ found _ _ => ?_⟩
  · obtain ⟨-, rfl⟩ := (units unit u).mp found
    cases held
  · obtain ⟨-, rfl⟩ := NdRange.getElem?_groups_cut found
    exact .pending rfl

/-- A new device is at work on nothing. -/
theorem Resumable.fresh (built : Device.build id config p memory placement = .ok device)
    (small : config.wavefrontSize < countBound) (reliable : Placement.Reliable placement)
    (made : NdRange.create launch number kernelName globalSize localSize wavefrontSize = .ok nd)
    (order : StageOrder) (sink : Sink) : Resumable (Job.fresh device order sink nd) := by
  refine ⟨.fresh built small reliable made order sink, fun active under_way => ?_⟩
  obtain ⟨-, rfl⟩ := Device.build_eq_ok built
  cases under_way

end Fresh

/-- When a run is over everything has been told of every wavefront. -/
theorem Recorded.whole {g : WorkGroup} (recorded : Recorded p lanes [] job) (quiet : Quiet job)
    (found : job.launch.groups[group]? = some g) {ws : List Wavefront}
    (listed : job.launch.wavefrontsOf group = .ok ws) (here : ws[index]? = some w) :
    ∃ (unit : Nat) (done : List Passage), done.length = p.length ∧
      Journey p ((w.subwavefrontCount? lanes).getD 0) done ∧
      job.log w = Passage.tale ⟨unit, group, w.id⟩ p.length done := by
  obtain ⟨unit, u, resident⟩ := recorded.staffed
  have told := recorded.told group g ws index w found listed here
  obtain ⟨runner, ended⟩ := quiet.exists_done recorded.follows.owned resident found
  rw [ended] at told
  cases told with
  | done journey whole told => exact ⟨_, _, whole, journey, told⟩

/-! ## Every wavefront -/

/-- In every run of a program that a new device completes on a new launch, whether it was
interrupted before or not, each wavefront runs the program instruction by instruction on one unit.
The trace tells of it nothing but how they pass: at each stage an instruction is taken in a later
cycle than it was produced in, and the next one is issued after it is written back. -/
theorem wavefronts_pass_in_order {id : Nat} {config : DeviceConfig} {kinds : List InstKind}
    {baseAddr : Nat} [MemoryService μ] {memory : μ} {placement : π}
    {device : Device SyntheticProgram μ π}
    (built : Device.build id config (.ofKinds kinds baseAddr) memory placement = .ok device)
    (small : config.wavefrontSize < countBound) (reliable : Placement.Reliable placement)
    {launch number : Nat} {kernelName : String} {globalSize localSize : Dim3}
    {wavefrontSize : Nat} {nd : NdRange}
    (made : NdRange.create launch number kernelName globalSize localSize wavefrontSize = .ok nd)
    (order : StageOrder) (history : List (Option Nat)) {stats : RunStats}
    {after : Job SyntheticProgram μ π}
    (completed : let job := (Job.fresh device order .keepAll nd).afterRuns history
      run.outcome job = (.ok stats, after) ∨
        ∃ budget, (runFor budget).outcome job = (.ok (.completed stats), after)) :
    let p := SyntheticProgram.ofKinds kinds baseAddr
    ∀ w ∈ nd.wavefronts.toList, ∃ (unit turns : Nat) (passages : List Passage),
      w.subwavefrontCount? config.streamCores = some turns ∧
      passages.length = p.length ∧
      after.device.sink.eventsAbout w.id = (passages.mapIdx fun pc x =>
        x.events ⟨unit, w.group, w.id⟩ (pc + 1 == p.length)).flatten ∧
      (∀ (pc : Nat) (x : Passage), passages[pc]? = some x →
        x.schedule < x.fetch ∧ x.fetch < x.decode ∧ x.decode < x.read ∧ x.read < x.begun ∧
        x.begun ≤ x.execute ∧ x.execute < x.write ∧
        x.requests.length = (if p.accesses pc then turns else 0) ∧
        x.requests.Pairwise (· < ·) ∧
        ∀ cycle ∈ x.requests, x.begun ≤ cycle ∧ cycle ≤ x.execute) ∧
      ∀ (pc : Nat) (x y : Passage), passages[pc]? = some x → passages[pc + 1]? = some y →
        x.write < y.schedule := by
  intro p w member
  have kept : .end ∉ p.kinds := SyntheticProgram.end_notMem_ofKinds kinds baseAddr
  have begun := (Recorded.fresh built small reliable made order).afterRuns (.refl nd) kept history
  have resumable := (Resumable.fresh built small reliable made order .keepAll).afterRuns history
  have completed : run.outcome ((Job.fresh device order .keepAll nd).afterRuns history) =
      (.ok stats, after) := by
    rcases completed with completed | ⟨budget, completed⟩
    · exact completed
    · exact ((resumable.completed_iff budget stats after).mp completed).1
  obtain ⟨recorded, shape⟩ :
      Recorded p config.streamCores [] after ∧ after.launch.SameShape nd := by
    have keeps := keeps_recorded_runWithin kept nd none _ begun
    rw [run_outcome] at completed
    have ended : ((runWithin none).outcome _).2 = after := congrArg Prod.snd completed
    exact ended ▸ keeps
  have quiet : Quiet after := resumable.owned.quiet_of_run completed
  obtain ⟨-, -, itemCount, groupSize, -, -, rfl⟩ := NdRange.create_eq_ok made
  obtain ⟨inside, ws, index, listed, here⟩ := NdRange.exists_group_of_mem_cut member
  rw [← shape.groupCount] at inside
  rw [← shape.wavefrontsOf] at listed
  obtain ⟨unit, passages, whole, journey, told⟩ :=
    recorded.whole quiet (Array.getElem?_eq_getElem inside) listed here
  obtain ⟨valid, -⟩ := Device.build_eq_ok built
  obtain ⟨turns, counted⟩ :=
    Bench.subwavefrontCount?_of_width (w := w) (DeviceConfig.laneWord_ne_zero valid small)
  rw [counted] at journey
  exact ⟨unit, turns, passages, counted, whole, told,
    fun pc x found => (journey.inOrder pc x found).ascending, journey.successive⟩

/-- On a device of two units with a memory that takes three cycles, in a run that was interrupted
after five cycles: three instructions pass for the first wavefront, and the load makes two
requests. -/
theorem wavefronts_pass_in_order_on_two_units :
    ∃ (device : Device SyntheticProgram FixedLatency Placer) (nd : NdRange),
      Device.build 0 { computeUnits := 2, streamCores := 2, wavefrontSize := 4 }
        (.ofKinds [.load, .alu]) { latency := 3 } PlacementPolicy.roundRobin.build = .ok device ∧
      NdRange.create 1 0 "kernel" ⟨24, 1, 1⟩ ⟨8, 1, 1⟩ 4 = .ok nd ∧
      ∃ stats after, run.outcome ((Job.fresh device .reverse .keepAll nd).afterRuns [some 5]) =
          (.ok stats, after) ∧
        ∃ (unit : Nat) (x y z : Passage),
          after.device.sink.eventsAbout 0 = [x.events ⟨unit, 0, 0⟩ false,
            y.events ⟨unit, 0, 0⟩ false, z.events ⟨unit, 0, 0⟩ true].flatten ∧
          x.requests.length = 2 ∧ y.requests.length = 0 ∧ x.write < y.schedule ∧
          y.write < z.schedule := by
  have built : Device.build 0 { computeUnits := 2, streamCores := 2, wavefrontSize := 4 }
      (SyntheticProgram.ofKinds [.load, .alu]) ({ latency := 3 } : FixedLatency)
      PlacementPolicy.roundRobin.build = .ok _ := rfl
  have made : NdRange.create 1 0 "kernel" ⟨24, 1, 1⟩ ⟨8, 1, 1⟩ 4 = .ok _ := rfl
  refine ⟨_, _, built, made,
    Attempt.exists_of_isOk (by decide +kernel) fun stats after completed => ?_⟩
  obtain ⟨unit, turns, passages, counted, length, told, ascending, successive⟩ :=
    wavefronts_pass_in_order built (by decide) (PlacementPolicy.reliable_build _) made .reverse
      [some 5] (Or.inl completed) _ (List.mem_cons_self ..)
  have twice : some 2 = some turns := counted
  cases twice
  obtain ⟨x, y, z, rfl⟩ := List.length_eq_three.mp length
  obtain ⟨-, -, -, -, -, -, load, -⟩ := ascending 0 x rfl
  obtain ⟨-, -, -, -, -, -, alu, -⟩ := ascending 1 y rfl
  exact ⟨unit, x, y, z, told, load, alu, successive 0 x y rfl rfl, successive 1 y z rfl rfl⟩

end Job

end Accelerator
