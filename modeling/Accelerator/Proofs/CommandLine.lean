import Accelerator.CommandLine.Run
import Accelerator.Proofs.Config
import Accelerator.Proofs.Device.Building
import Accelerator.Proofs.Device.Resumption
import Accelerator.Proofs.Device.Words
import Accelerator.Proofs.FileTree
import Accelerator.Proofs.SizeList.Number

/-!
# What a command goes by

A command that is given a configuration file reads the file, validates its device section, merges the
options into what it has read, and from then on goes by the merged configuration alone
(`CommandLine.run_depends_on_merged`). The merged configuration is refused before any cycle has run
or not at all: what comes of its run, in words or with sums of any size, is a report or a fault
(`CommandLine.runConfig_isRefusal`).

So an option replaces a value of the file, but not before the file has been found valid by itself.
-/

namespace Accelerator

namespace Options

/-! ## Numbers that are typed -/

/-- Item counts that are typed are item counts. -/
def Fits (o : Options) : Prop := ∀ n, o.wavefrontSize = some n → n < countBound

theorem lt_of_count? {value : String} {n : Nat} (read : count? value = some n) : n < countBound := by
  unfold count? at read
  split at read
  · cases read
  · split at read
    · cases read
      decide
    · cases read
  · rcases typed : readNatural countBound value.toList with e | m
    · rw [typed] at read
      cases read
    · rw [typed] at read
      cases read
      exact ((readNatural_eq_ok (by decide)).mp typed).2

theorem of_once {α : Type} {P : α → Prop} {old new result : Option α}
    (set : once old new = some result) (each : ∀ a, new = some a → P a) :
    ∀ a, result = some a → P a := by
  cases old with
  | some _ => cases set
  | none =>
      obtain ⟨a, typed, rfl⟩ := Option.map_eq_some_iff.mp set
      intro b same
      cases same
      exact each a typed

theorem Fits.setValue {o after : Options} (fits : o.Fits) {name value : String}
    (set : o.setValue name value = some after) : after.Fits := by
  unfold Options.setValue at set
  split at set
  case h_10 => cases set
  all_goals
    obtain ⟨result, once, same⟩ := Option.bind_eq_some_iff.mp set
    cases same
  case h_4 => exact of_once once fun _ => lt_of_count?
  all_goals exact fits

theorem Fits.setSwitch {o after : Options} (fits : o.Fits) {name : String}
    (set : o.setSwitch name = some after) : after.Fits := by
  unfold Options.setSwitch at set
  split at set
  case h_3 => cases set
  all_goals
    split at set
    · cases set
    · cases set
      exact fits

namespace Reading

theorem fits_addLetters {r after : Reading} {cs : List Char} (fits : r.options.Fits)
    (read : r.addLetters cs = some after) : after.options.Fits := by
  fun_induction addLetters r cs with
  | case1 r =>
      cases read
      exact fits
  | case2 r =>
      cases read
      exact fits
  | case3 r value =>
      obtain ⟨options, set, same⟩ := Option.bind_eq_some_iff.mp read
      cases same
      exact fits.setValue set
  | case4 r value =>
      obtain ⟨options, set, same⟩ := Option.bind_eq_some_iff.mp read
      cases same
      exact fits.setValue set
  | case5 r rest ih =>
      obtain ⟨options, set, others⟩ := Option.bind_eq_some_iff.mp read
      exact ih options (fits.setSwitch set) others
  | case6 => cases read

theorem fits_add {r after : Reading} {text : String} (fits : r.options.Fits)
    (read : r.add text = some after) : after.options.Fits := by
  unfold add at read
  split at read
  · cases read
  split at read
  · obtain ⟨options, set, same⟩ := Option.bind_eq_some_iff.mp read
    cases same
    exact fits.setValue set
  · obtain ⟨options, set, same⟩ := Option.bind_eq_some_iff.mp read
    cases same
    exact fits.setValue set
  · split at read
    · cases read
      exact fits
    · obtain ⟨options, set, same⟩ := Option.bind_eq_some_iff.mp read
      cases same
      exact fits.setSwitch set
  · exact fits_addLetters fits read
  · cases read
    exact fits
  · cases read

end Reading

/-- The item count that a command line gives is one. -/
theorem fits_of_parse? {arguments : List String} {o : Options} (given : parse? arguments = some o) :
    o.Fits := by
  have each : ∀ {arguments : List String} {r after : Reading}, r.options.Fits →
      arguments.foldlM Reading.add r = some after → after.options.Fits := by
    intro arguments
    induction arguments with
    | nil =>
        intro r after fits read
        cases read
        exact fits
    | cons text rest ih =>
        intro r after fits read
        obtain ⟨next, added, others⟩ := Option.bind_eq_some_iff.mp read
        exact ih (Reading.fits_add fits added) others
  unfold parse? at given
  split at given
  · rename_i r read
    split at given
    · cases given
      exact each (fun _ absent => (by cases absent)) read
    · cases given
  · cases given

/-- What the options replace, and what they leave as it is, is an item count. -/
theorem Fits.override {o : Options} (fits : o.Fits) {c : SimConfig} (given : c.Fits wordBound) :
    (o.override c).device.wavefrontSize < countBound := by
  show o.wavefrontSize.getD c.device.wavefrontSize < countBound
  cases typed : o.wavefrontSize with
  | none => exact given.device.wavefrontSize
  | some size => exact fits size typed

end Options

/-! ## Preparing a run -/

/-- All units of a new device evaluate their stages from the last to the first. -/
theorem Device.withOrder_reverse {ι μ π : Type} {id : Nat} {config : DeviceConfig} {isa : ι}
    {memory : μ} {placement : π} {device : Device ι μ π}
    (built : Device.build id config isa memory placement = .ok device) :
    device.withOrder .reverse = device := by
  obtain ⟨-, rfl⟩ := build_eq_ok built
  simp [withOrder, Cluster.setOrder, Cluster.create, ComputeUnit.create, Function.comp_def]

/-- A run that has begun has an answer, unless the counter of cycles runs out. -/
theorem Job.Owned.answers {ι μ π : Type} [InstructionModel ι] [MemoryService μ] [Placement π]
    {job : Job ι μ π} (owned : job.Owned) (room : Nat) (budget : Option Nat) :
    (∃ answer, ((drive room budget).outcome job).1 = .ok answer) ∨
      ((drive room budget).outcome job).1 = .error (.fault .cycleOverflow) := by
  cases budget with
  | none =>
      cases owned.course (room + 1) room with
      | ended _ _ _ _ long => exact .inl ⟨_, congrArg Prod.fst (long none)⟩
      | overflow _ _ long => exact .inr (congrArg Prod.fst (long none))
      | pause _ _ enough _ _ _ => exact absurd enough (Nat.not_succ_le_self room)
  | some b =>
      cases owned.course b room with
      | ended _ _ _ short _ => exact .inl ⟨_, congrArg Prod.fst short⟩
      | overflow _ short _ => exact .inr (congrArg Prod.fst short)
      | pause _ _ _ _ short _ => exact .inl ⟨_, congrArg Prod.fst short⟩

/-- Whatever sums are taken, a run that has begun has an answer unless it is a fault. -/
theorem Job.Owned.answers_or_faults {ι μ π : Type} [InstructionModel ι] [MemoryService μ]
    [Placement π] [sums : Sums] {job : Job ι μ π} (owned : job.Owned) (room : Nat)
    (budget : Option Nat) :
    (∃ answer, ((drive room budget).outcome job).1 = .ok answer) ∨
      ∃ cause, ((drive room budget).outcome job).1 = .error (.fault cause) := by
  rcases sums.unbounded_or_words with rfl | rfl
  · exact (owned.answers room budget).imp_right fun overflow => ⟨_, overflow⟩
  · let w : Watched ι μ π := { job, notes := [] }
    have inWords := Watched.InWords.drive (w := w) room budget owned
    by_cases held : Watched.Held ((Noted.drive Watched.advance room budget).outcome w).2
    · obtain ⟨answer, -⟩ := Noted.matches_drive Watched.matches_advance room budget job w rfl
      rw [inWords.same held, ← answer.eq]
      exact (owned.answers room budget).imp_right fun overflow => ⟨_, overflow⟩
    · exact .inr ⟨_, inWords.faults (fun v member => absurd member List.not_mem_nil) held⟩

/-! ## Refused launches -/

namespace NdRange

variable {e : Error}

theorem invalidLaunch_of_checkAxis {axis : String × Nat × Nat}
    (failed : checkAxis axis = .error e) : ∃ reason, e = .invalidLaunch reason := by
  obtain ⟨axis, whole, part⟩ := axis
  simp only [checkAxis] at failed
  split at failed
  · cases failed
    exact ⟨_, rfl⟩
  split at failed
  · cases failed
    exact ⟨_, rfl⟩
  · cases failed

theorem invalidLaunch_of_checkSize {which : String} {extent : Dim3}
    (failed : checkSize which extent = .error e) : ∃ reason, e = .invalidLaunch reason := by
  unfold checkSize at failed
  split at failed
  · cases failed
  · cases failed
    exact ⟨_, rfl⟩

/-- A launch is refused for its shape, and never by a fault. -/
theorem invalidLaunch_of_create {launch id : Nat} {kernelName : String} {globalSize localSize : Dim3}
    {wavefrontSize : Nat}
    (refused : create launch id kernelName globalSize localSize wavefrontSize = .error e) :
    ∃ reason, e = .invalidLaunch reason := by
  unfold create at refused
  split at refused
  · cases refused
    exact ⟨_, rfl⟩
  rcases checked : (axes globalSize localSize).forM checkAxis with e' | _
  · rw [checked] at refused
    cases refused
    obtain ⟨axis, -, failed⟩ := forM_eq_error checked
    exact invalidLaunch_of_checkAxis failed
  rcases items : checkSize "global" globalSize with e' | itemCount
  · rw [checked, items] at refused
    cases refused
    exact invalidLaunch_of_checkSize items
  rcases group : checkSize "local" localSize with e' | groupSize
  · rw [checked, items, group] at refused
    cases refused
    exact invalidLaunch_of_checkSize group
  · rw [checked, items, group] at refused
    cases refused

end NdRange

namespace CommandLine

/-- Two configurations make the same run: they differ in the snapshots of the run at most. -/
structure SameRun (c d : SimConfig) : Prop where
  device : c.device = d.device
  memory : c.memory = d.memory
  kernel : c.kernel = d.kernel
  maxCycles : c.run.maxCycles = d.run.maxCycles

/-- The command has given up before the first cycle. A fault of a run is no refusal. -/
def Ending.isRefusal : Ending → Bool
  | .failure (.error (.fault _)) => false
  | .failure _ => true
  | .report _ | .usage => false

/-- The kernel of a configuration as a launch. -/
def launch (c : SimConfig) : Except Error NdRange :=
  NdRange.create 0 0 c.kernel.name c.kernel.globalSize c.kernel.localSize c.device.wavefrontSize

variable {c d : SimConfig} {sink : Sink}

theorem prepare_of_invalid {e : Error} (refused : c.device.validate = .error e) :
    prepare c sink = .error e := by
  rw [prepare, refused]
  rfl

theorem prepare_of_uncut {e : Error} (valid : c.device.validate = .ok ())
    (refused : launch c = .error e) : prepare c sink = .error e := by
  rw [launch] at refused
  rw [prepare, valid, refused]
  rfl

theorem prepare_of_cut {nd : NdRange} (valid : c.device.validate = .ok ())
    (made : launch c = .ok nd) (sink : Sink) :
    ∃ device, Device.ofConfig 0 c = .ok device ∧
      prepare c sink = .ok (Job.fresh device .reverse sink nd) := by
  obtain ⟨device, built⟩ : ∃ device, Device.ofConfig 0 c = .ok device := by
    rw [Device.ofConfig, Device.build, valid]
    exact ⟨_, rfl⟩
  refine ⟨device, built, ?_⟩
  rw [launch] at made
  rw [prepare, valid, made, built, Job.fresh, Device.withOrder_reverse built]
  rfl

theorem prepare_congr (same : SameRun c d) : prepare c sink = prepare d sink := by
  simp only [prepare, Device.ofConfig, same.device, same.memory, same.kernel]

theorem runJob_congr [Sums] (same : SameRun c d) : runJob c = runJob d := by
  unfold runJob
  rw [same.maxCycles]

/-! ## Running -/

/-- A kernel whose groups are too large is refused by the device, and any other runs until it is over
or its budget is used up, unless there is a fault. -/
theorem runJob_outcome [Sums] {nd : NdRange} {device : Device Program MemoryModel Placer}
    (made : launch c = .ok nd) (built : Device.ofConfig 0 c = .ok device)
    (small : c.device.wavefrontSize < countBound) (sink : Sink) :
    let answer := (runJob c (Job.fresh device .reverse sink nd)).1
    (c.device.maxGroupSize < c.kernel.localSize.volume →
      answer = .error (.groupTooLarge c.kernel.localSize.volume c.device.maxGroupSize)) ∧
    (c.kernel.localSize.volume ≤ c.device.maxGroupSize →
      (∃ outcome, answer = .ok outcome) ∨ ∃ cause, answer = .error (.fault cause)) := by
  have owned := Job.Owned.fresh built small c.device.placement.reliable_build made .reverse sink
  generalize new : Job.fresh device .reverse sink nd = job at owned ⊢
  have free : job.device.active = none := by
    subst new
    obtain ⟨-, rfl⟩ := Device.build_eq_ok built
    rfl
  have config : job.device.config = c.device := by
    subst new
    obtain ⟨-, rfl⟩ := Device.build_eq_ok built
    rfl
  have size : job.launch.groupSize = c.kernel.localSize.volume ∧
      job.launch.wavefrontSize = c.device.wavefrontSize := by
    subst new
    obtain ⟨-, -, _, _, -, -, rfl⟩ := NdRange.create_eq_ok made
    exact ⟨rfl, rfl⟩
  intro answer
  rw [← config, ← size.1]
  constructor
  · intro large
    exact congrArg Prod.fst (Job.runWithin_outcome_of_error (Job.begin_of_large free large) _)
  · intro fits
    have begins := Job.begin_of_fits free ⟨fits, size.2.trans (congrArg _ config.symm)⟩
    have runs : answer = ((Job.drive (wordBound - 1 - job.device.cycle)
        c.run.maxCycles).outcome job.admitted).1 :=
      congrArg Prod.fst (Job.runWithin_outcome begins _)
    have owned : job.admitted.Owned := owned.congr rfl rfl rfl rfl
    rw [runs]
    exact owned.answers_or_faults _ _

theorem ending_of_error {result : Except Error Outcome × Job Program MemoryModel Placer} {e : Error}
    (refused : result.1 = .error e) : ending result = .failure (.error e) := by
  obtain ⟨answer, after⟩ := result
  cases refused
  rfl

theorem ending_of_ok {result : Except Error Outcome × Job Program MemoryModel Placer}
    {outcome : Outcome} (answered : result.1 = .ok outcome) : ∃ lines, ending result = .report lines := by
  obtain ⟨answer, after⟩ := result
  cases answered
  exact ⟨_, rfl⟩

/-- A kernel that can be cut up is run, and refused if its groups are too large for the device. -/
theorem exists_prepared [Sums] {nd : NdRange} (valid : c.device.validate = .ok ())
    (made : launch c = .ok nd) (small : c.device.wavefrontSize < countBound) (sink : Sink) :
    ∃ job, prepare c sink = .ok job ∧ ((ending (runJob c job)).isRefusal = true ↔
      c.device.maxGroupSize < c.kernel.localSize.volume) := by
  obtain ⟨device, built, prepared⟩ := prepare_of_cut valid made sink
  obtain ⟨large, fits⟩ := runJob_outcome made built small sink
  refine ⟨_, prepared, fun refused => Nat.lt_of_not_le fun within => ?_, fun exceeds => ?_⟩
  · rcases fits within with ⟨outcome, answered⟩ | ⟨cause, fault⟩
    · obtain ⟨lines, report⟩ := ending_of_ok answered
      rw [report] at refused
      cases refused
    · rw [ending_of_error fault] at refused
      cases refused
  · rw [ending_of_error (large exceeds)]
    rfl

variable {σ : Type} {files : Files (StateM σ)} {s : σ}

/-- A run whose events are written to a file starts if the file can be made. -/
theorem runTraced_outcome [Sums] (file : String) (job : Job Program MemoryModel Placer) :
    ((runTraced files c file job).run s).1 =
      if ((files.create file).run s).1 then ending (runJob c job) else .failure (.trace file) := by
  rw [runTraced, StateT.run_bind]
  rcases (files.create file).run s with ⟨made, after⟩
  cases made with
  | false => rfl
  | true =>
      simp only [if_true]
      split <;> rfl

/-- The configuration itself is refused, or the file for the events cannot be made. -/
def Refused (files : Files (StateM σ)) (s : σ) (c : SimConfig) (trace : Option String) : Prop :=
  (∃ e, c.device.validate = .error e) ∨ (∃ e, launch c = .error e) ∨
    c.device.maxGroupSize < c.kernel.localSize.volume ∨
    ∃ file, trace = some file ∧ ((files.create file).run s).1 = false

/-- A configuration is refused before the first cycle for one of four reasons, or not at all. -/
theorem runConfig_isRefusal [Sums] (files : Files (StateM σ)) (s : σ)
    (small : c.device.wavefrontSize < countBound) (trace : Option String) :
    ((runConfig files c trace).run s).1.isRefusal = true ↔ Refused files s c trace := by
  generalize answered : ((runConfig files c trace).run s).1 = answer
  rcases c.device.validate_cases with valid | ⟨reason, invalid⟩
  · rcases made : launch c with e | nd
    · obtain ⟨reason, rfl⟩ := NdRange.invalidLaunch_of_create made
      have refused : answer = .failure (.error (.invalidLaunch reason)) := by
        simp only [← answered, runConfig, prepare_of_uncut valid made]
        rfl
      exact iff_of_true (by rw [refused]; rfl) (.inr (.inl ⟨_, made⟩))
    · have only : Refused files s c trace ↔ c.device.maxGroupSize < c.kernel.localSize.volume ∨
          ∃ file, trace = some file ∧ ((files.create file).run s).1 = false := by
        simp [Refused, valid, made]
      rw [only]
      cases trace with
      | none =>
          obtain ⟨job, prepared, large⟩ := exists_prepared valid made small .discard
          have runs : answer = ending (runJob c job) := by
            simp only [← answered, runConfig, Option.isSome_none, Bool.false_eq_true, if_false,
              prepared]
            rfl
          rw [runs, large]
          simp
      | some file =>
          obtain ⟨job, prepared, large⟩ := exists_prepared valid made small (.log {})
          have runs : answer = if ((files.create file).run s).1 then ending (runJob c job)
              else .failure (.trace file) := by
            simp only [← answered, runConfig, Option.isSome_some, if_true, prepared]
            exact runTraced_outcome file job
          rw [runs]
          cases created : ((files.create file).run s).1 with
          | false => simp [created, Ending.isRefusal]
          | true => simpa [created] using large
  · have refused : answer = .failure (.error (.invalidConfig reason)) := by
      simp only [← answered, runConfig, prepare_of_invalid invalid]
      rfl
    exact iff_of_true (by rw [refused]; rfl) (.inl ⟨_, invalid⟩)

theorem runConfig_congr [Sums] (same : SameRun c d) (trace : Option String) :
    runConfig files c trace = runConfig files d trace := by
  simp only [runConfig, runTraced, prepare_congr same, runJob_congr same]

/-! ## The command -/

section Command

variable {arguments : List String} {options : Options} {path text : String} {found : σ}

theorem load_outcome (holds : (files.read path).run s = (some text, found)) :
    (SimConfig.load files path).run s = (SimConfig.ofToml text, found) := by
  rw [SimConfig.load, StateT.run_bind, holds]
  rfl

theorem run_of_valid [Sums] (given : Options.parse? arguments = some options)
    (named : options.config = some path)
    (holds : (files.read path).run s = (some text, found))
    (denotes : SimConfig.parse? text = some c) (valid : c.device.validate = .ok ()) :
    (run files arguments).run s =
      (runConfig files (options.override c) options.trace).run found := by
  have loaded := load_outcome holds
  rw [SimConfig.ofToml_of_valid denotes valid] at loaded
  have configured :
      (configure files options).run s = (.ok (options.override c), found) := by
    rw [configure, named]
    simp only
    rw [StateT.run_bind, loaded]
    rfl
  rw [run, given]
  simp only
  rw [StateT.run_bind, configured]
  rfl

/-- The file is validated by itself, before the options have been merged into it. -/
theorem run_of_invalid [Sums] {e : Error} (given : Options.parse? arguments = some options)
    (named : options.config = some path)
    (holds : (files.read path).run s = (some text, found))
    (denotes : SimConfig.parse? text = some c) (refused : c.device.validate = .error e) :
    (run files arguments).run s = (.failure (.config path), found) := by
  have loaded := load_outcome holds
  rw [SimConfig.ofToml_of_invalid denotes refused] at loaded
  have configured : (configure files options).run s = (.error (.config path), found) := by
    rw [configure, named]
    simp only
    rw [StateT.run_bind, loaded]
    rfl
  rw [run, given]
  simp only
  rw [StateT.run_bind, configured]
  rfl

/-- A command whose file is found valid by itself goes by the merged configuration alone, snapshots
aside. It is refused for what the merged configuration says, or because there is no place for its
events, and for no other reason. -/
theorem run_depends_on_merged [Sums] (given : Options.parse? arguments = some options)
    (named : options.config = some path)
    (holds : (files.read path).run s = (some text, found))
    (denotes : SimConfig.parse? text = some c) :
    let merged := options.override c
    let result := (run files arguments).run s
    (∀ e, c.device.validate = .error e → result = (.failure (.config path), found)) ∧
    (c.device.validate = .ok () →
      (∀ d, SameRun merged d → result = (runConfig files d options.trace).run found) ∧
      (result.1.isRefusal = true ↔ Refused files found merged options.trace)) := by
  intro merged result
  refine ⟨fun e refused => run_of_invalid given named holds denotes refused, fun valid => ?_⟩
  have runs : result = (runConfig files merged options.trace).run found :=
    run_of_valid given named holds denotes valid
  have small := (Options.fits_of_parse? given).override (SimConfig.fits_of_parse? denotes)
  rw [runs]
  exact ⟨fun d same => by rw [runConfig_congr same], runConfig_isRefusal files found small _⟩

end Command

/-! ## Two units from the command line -/

section TwoUnits

/-- A machine with one file. -/
def oneFile (text : String) : FileTree := .machine [("config.toml", text)]

theorem read_oneFile (text : String) :
    (FileTree.files.read "config.toml").run (oneFile text) = (some text, oneFile text) := by
  have located : (oneFile text).locate? "config.toml" = some ["tmp", "work", "config.toml"] :=
    FileTree.locate?_of_name (by decide) (by simp) (by decide +kernel) (by decide +kernel)
      (by decide +kernel)
  rw [FileTree.read_run, FileTree.read?, located]
  rfl

def twoUnits : List String := ["--config", "config.toml", "--compute-units", "2"]

theorem parse?_twoUnits :
    Options.parse? twoUnits = some { config := some "config.toml", computeUnits := some 2 } := by
  decide +kernel

/-- A valid device with the default kernel is not refused. -/
theorem not_refused_of_two_units :
    ¬Refused files s { device := { computeUnits := 2 } } none := by
  rintro (⟨e, invalid⟩ | ⟨e, uncut⟩ | large | ⟨file, traced, -⟩)
  · cases invalid
  · cases uncut
  · exact absurd large (by decide)
  · cases traced

/-- The number of units comes from the command line and the rest from the file, and the run is not
refused. -/
theorem run_of_replaced_four_units :
    (letI _ := Sums.words; ((run FileTree.files twoUnits).run
      (oneFile "[device]\nnum_compute_units = 4\n")).1.isRefusal) = false := by
  let _ := Sums.words
  obtain ⟨-, accepted⟩ := run_depends_on_merged parse?_twoUnits rfl
    (read_oneFile "[device]\nnum_compute_units = 4\n") (c := { device := { computeUnits := 4 } })
    (by decide +kernel)
  obtain ⟨-, refused⟩ := accepted rfl
  rw [← Bool.not_eq_true, refused]
  exact not_refused_of_two_units

/-- The merged configuration would not be refused; but the file by itself has no units, and is. -/
theorem run_of_replaced_zero_units :
    let c : SimConfig := { device := { computeUnits := 0 } }
    let options : Options := { config := some "config.toml", computeUnits := some 2 }
    let found := oneFile "[device]\nnum_compute_units = 0\n"
    Options.parse? twoUnits = some options ∧
      SimConfig.parse? "[device]\nnum_compute_units = 0\n" = some c ∧
      ¬Refused FileTree.files found (options.override c) options.trace ∧
      (letI _ := Sums.words; ((run FileTree.files twoUnits).run found).1) =
        .failure (.config "config.toml") := by
  let _ := Sums.words
  intro c options found
  have denotes : SimConfig.parse? "[device]\nnum_compute_units = 0\n" = some c := by
    decide +kernel
  exact ⟨parse?_twoUnits, denotes, not_refused_of_two_units, congrArg Prod.fst
    (run_of_invalid parse?_twoUnits rfl (read_oneFile _) denotes rfl)⟩

end TwoUnits

end CommandLine

end Accelerator
