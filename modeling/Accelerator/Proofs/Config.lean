import Accelerator.Config.Load
import Accelerator.Proofs.Document.Decode

/-!
# Laws of configurations

A configuration *fits* below a bound if its numbers do, where item counts have a bound of their own.
Whatever is read from a document fits into words (`SimConfig.fits_of_ofTree?`).

Of a configuration some fields can be kept, and the others take their defaults: this is its *overlay*
on the defaults. A table that lists the kept fields of a configuration is read as the overlay, in
every dialect (`SimConfig.ofTree?_of_lists`). In particular every configuration that fits is read from
the tree that it is written as.
-/

namespace Accelerator

/-! ## Numbers that fit -/

/-- Extents are item counts. -/
structure Dim3.Fits (d : Dim3) : Prop where
  x : d.x < countBound
  y : d.y < countBound
  z : d.z < countBound

structure DeviceConfig.Fits (bound : Nat) (c : DeviceConfig) : Prop where
  computeUnits : c.computeUnits < bound
  streamCores : c.streamCores < bound
  wavefrontSize : c.wavefrontSize < countBound
  maxGroupSize : c.maxGroupSize < countBound

structure MemoryConfig.Fits (bound : Nat) (c : MemoryConfig) : Prop where
  l2HitLatency : c.l2HitLatency < bound
  hbmLatency : c.hbmLatency < bound
  l2Lines : c.l2Lines < bound
  lineSize : c.lineSize < bound

structure RunConfig.Fits (bound : Nat) (c : RunConfig) : Prop where
  maxCycles : ∀ cycles, c.maxCycles = some cycles → cycles < bound
  metricsInterval : c.metricsInterval < bound

structure KernelConfig.Fits (c : KernelConfig) : Prop where
  globalSize : c.globalSize.Fits
  localSize : c.localSize.Fits

/-- The numbers of a configuration are below a bound, and its item counts are item counts. -/
structure SimConfig.Fits (bound : Nat) (c : SimConfig) : Prop where
  device : c.device.Fits bound
  memory : c.memory.Fits bound
  run : c.run.Fits bound
  kernel : c.kernel.Fits

theorem Dim3.fits_of_ofArray? {dialect : Dialect} {t : Tree} {d : Dim3}
    (given : Dim3.ofArray? dialect t = some d) : d.Fits := by
  obtain ⟨⟨x, y, z⟩, read, rfl⟩ := Option.map_eq_some_iff.mp given
  obtain ⟨first, second, third⟩ := Tree.lt_of_triple? read
  exact ⟨first, second, third⟩

theorem Dim3.ofArray?_toArray {dialect : Dialect} {d : Dim3} (fits : d.Fits) :
    Dim3.ofArray? dialect d.toArray = some d := by
  have read : Tree.triple? dialect (Tree.natural? countBound)
      (.list [.natural d.x, .natural d.y, .natural d.z]) = some (d.x, d.y, d.z) :=
    Tree.triple?_natural fits.x fits.y fits.z
  rw [Dim3.ofArray?, Dim3.toArray, Dim3.toList, List.map_cons, List.map_cons, List.map_cons,
    List.map_nil, read]
  rfl

/-! ## What is read fits -/

section Read

variable {dialect : Dialect} {t : Tree} {field : Option Tree}

theorem DeviceConfig.fits_of_ofTree? {c : DeviceConfig}
    (given : DeviceConfig.ofTree? dialect t = some c) : c.Fits wordBound := by
  obtain ⟨fields, -, read⟩ := Option.bind_eq_some_iff.mp given
  split at read
  · simp only [Option.bind_eq_bind, Option.bind_eq_some_iff, Option.pure_def,
      Option.some.injEq] at read
    obtain ⟨_, units, _, cores, _, size, _, group, _, -, rfl⟩ := read
    exact {
      computeUnits := lt_of_fieldOr (by decide) units
      streamCores := lt_of_fieldOr (by decide) cores
      wavefrontSize := lt_of_fieldOr (by decide) size
      maxGroupSize := lt_of_fieldOr (by decide) group }
  · cases read

theorem MemoryConfig.fits_of_ofTree? {c : MemoryConfig}
    (given : MemoryConfig.ofTree? dialect t = some c) : c.Fits wordBound := by
  obtain ⟨fields, -, read⟩ := Option.bind_eq_some_iff.mp given
  split at read
  · simp only [Option.bind_eq_bind, Option.bind_eq_some_iff, Option.pure_def,
      Option.some.injEq] at read
    obtain ⟨_, hit, _, latency, _, lines, _, size, rfl⟩ := read
    exact {
      l2HitLatency := lt_of_fieldOr (by decide) hit
      hbmLatency := lt_of_fieldOr (by decide) latency
      l2Lines := lt_of_fieldOr (by decide) lines
      lineSize := lt_of_fieldOr (by decide) size }
  · cases read

theorem RunConfig.fits_of_ofTree? {c : RunConfig}
    (given : RunConfig.ofTree? dialect t = some c) : c.Fits wordBound := by
  obtain ⟨fields, -, read⟩ := Option.bind_eq_some_iff.mp given
  split at read
  · simp only [Option.bind_eq_bind, Option.bind_eq_some_iff, Option.pure_def,
      Option.some.injEq] at read
    obtain ⟨_, budget, _, interval, rfl⟩ := read
    exact {
      maxCycles := fun cycles same => by
        cases same
        exact lt_of_fieldOr_optional budget
      metricsInterval := lt_of_fieldOr (by decide) interval }
  · cases read

theorem KernelConfig.fits_of_ofTree? {c : KernelConfig}
    (given : KernelConfig.ofTree? dialect t = some c) : c.Fits := by
  obtain ⟨fields, -, read⟩ := Option.bind_eq_some_iff.mp given
  split at read
  · simp only [Option.bind_eq_bind, Option.bind_eq_some_iff, Option.pure_def,
      Option.some.injEq] at read
    obtain ⟨_, -, _, whole, _, part, _, -, rfl⟩ := read
    exact {
      globalSize := of_fieldOr ⟨by decide, by decide, by decide⟩ (fun _ _ => Dim3.fits_of_ofArray?)
        whole
      localSize := of_fieldOr ⟨by decide, by decide, by decide⟩ (fun _ _ => Dim3.fits_of_ofArray?)
        part }
  · cases read

/-- Whatever is read from a document fits into words. -/
theorem SimConfig.fits_of_ofTree? {c : SimConfig}
    (given : SimConfig.ofTree? dialect t = some c) : c.Fits wordBound := by
  obtain ⟨fields, -, read⟩ := Option.bind_eq_some_iff.mp given
  split at read
  · simp only [Option.bind_eq_bind, Option.bind_eq_some_iff, Option.pure_def,
      Option.some.injEq] at read
    obtain ⟨_, device, _, memory, _, run, _, kernel, rfl⟩ := read
    exact {
      device := of_fieldOr ⟨by decide, by decide, by decide, by decide⟩
        (fun _ _ => DeviceConfig.fits_of_ofTree?) device
      memory := of_fieldOr ⟨by decide, by decide, by decide, by decide⟩
        (fun _ _ => MemoryConfig.fits_of_ofTree?) memory
      run := of_fieldOr ⟨(fun _ absent => by cases absent), by decide⟩ (fun _ _ => RunConfig.fits_of_ofTree?) run
      kernel := of_fieldOr
        ⟨⟨by decide, by decide, by decide⟩, ⟨by decide, by decide, by decide⟩⟩
        (fun _ _ => KernelConfig.fits_of_ofTree?) kernel }
  · cases read

end Read

/-! ## Overlays on the defaults

The fields of a section are the entries of the table that it is written as. `keep` says by its name
whether a field is kept. -/

/-- The kept fields of a section, and the defaults of the others. -/
def DeviceConfig.overlay (keep : String → Bool) (c : DeviceConfig) : DeviceConfig :=
  let default : DeviceConfig := {}
  { computeUnits := if keep "num_compute_units" then c.computeUnits else default.computeUnits
    streamCores := if keep "num_stream_cores" then c.streamCores else default.streamCores
    wavefrontSize := if keep "wavefront_size" then c.wavefrontSize else default.wavefrontSize
    maxGroupSize := if keep "max_work_group_size" then c.maxGroupSize else default.maxGroupSize
    placement := if keep "placement" then c.placement else default.placement }

def MemoryConfig.overlay (keep : String → Bool) (c : MemoryConfig) : MemoryConfig :=
  let default : MemoryConfig := {}
  { l2HitLatency := if keep "l2_hit_latency" then c.l2HitLatency else default.l2HitLatency
    hbmLatency := if keep "hbm_latency" then c.hbmLatency else default.hbmLatency
    l2Lines := if keep "l2_lines" then c.l2Lines else default.l2Lines
    lineSize := if keep "line_size" then c.lineSize else default.lineSize }

def RunConfig.overlay (keep : String → Bool) (c : RunConfig) : RunConfig :=
  let default : RunConfig := {}
  { maxCycles := if keep "max_cycles" then c.maxCycles else default.maxCycles
    metricsInterval := if keep "metrics_interval" then c.metricsInterval else default.metricsInterval }

def KernelConfig.overlay (keep : String → Bool) (c : KernelConfig) : KernelConfig :=
  let default : KernelConfig := {}
  { name := if keep "name" then c.name else default.name
    globalSize := if keep "global_size" then c.globalSize else default.globalSize
    localSize := if keep "local_size" then c.localSize else default.localSize
    program := if keep "program" then c.program else default.program }

/-- The default configuration with the kept fields of `c` in place of its own. `keep` is given the
name of a section and that of a field. -/
def SimConfig.overlay (keep : String → String → Bool) (c : SimConfig) : SimConfig where
  device := c.device.overlay (keep "device")
  memory := c.memory.overlay (keep "memory")
  run := c.run.overlay (keep "run")
  kernel := c.kernel.overlay (keep "kernel")

section Overlay

variable {dialect : Dialect} {keep : String → Bool} {entries : List (String × Tree)}

theorem InstKind.variant?_name (kind : InstKind) :
    Tree.variant? dialect InstKind.all InstKind.name (.text kind.name) = some kind :=
  Tree.variant?_name (by cases kind <;> decide) (by cases kind <;> decide)

theorem PlacementPolicy.variant?_name (policy : PlacementPolicy) :
    Tree.variant? dialect PlacementPolicy.all PlacementPolicy.name (.text policy.name) =
      some policy :=
  Tree.variant?_name (by cases policy <;> decide) (by cases policy <;> decide)

theorem DeviceConfig.ofTree?_of_hasFields {c : DeviceConfig} (fits : c.Fits wordBound)
    (has : Tree.HasFields fieldNames (c.toTree.entries.filter fun field => keep field.1) entries) :
    ofTree? dialect (.table entries) = some (c.overlay keep) := by
  have row : (fieldNames.map fun name =>
        if keep name then c.toTree.entries.lookup name else none) =
      [if keep "num_compute_units" then some (.natural c.computeUnits) else none,
        if keep "num_stream_cores" then some (.natural c.streamCores) else none,
        if keep "wavefront_size" then some (.natural c.wavefrontSize) else none,
        if keep "max_work_group_size" then some (.natural c.maxGroupSize) else none,
        if keep "placement" then some (.text c.placement.name) else none] := rfl
  rw [ofTree?, Tree.fields?_of_kept (by simp [toTree, Tree.entries]) has, row]
  simp only [Option.bind_eq_bind, Option.bind_some,
    fieldOr_ite (Tree.natural?_natural fits.computeUnits),
    fieldOr_ite (Tree.natural?_natural fits.streamCores),
    fieldOr_ite (Tree.natural?_natural fits.wavefrontSize),
    fieldOr_ite (Tree.natural?_natural fits.maxGroupSize),
    fieldOr_ite (PlacementPolicy.variant?_name c.placement)]
  rfl

theorem MemoryConfig.ofTree?_of_hasFields {c : MemoryConfig} (fits : c.Fits wordBound)
    (has : Tree.HasFields fieldNames (c.toTree.entries.filter fun field => keep field.1) entries) :
    ofTree? dialect (.table entries) = some (c.overlay keep) := by
  have row : (fieldNames.map fun name =>
        if keep name then c.toTree.entries.lookup name else none) =
      [if keep "l2_hit_latency" then some (.natural c.l2HitLatency) else none,
        if keep "hbm_latency" then some (.natural c.hbmLatency) else none,
        if keep "l2_lines" then some (.natural c.l2Lines) else none,
        if keep "line_size" then some (.natural c.lineSize) else none] := rfl
  rw [ofTree?, Tree.fields?_of_kept (by simp [toTree, Tree.entries]) has, row]
  simp only [Option.bind_eq_bind, Option.bind_some,
    fieldOr_ite (Tree.natural?_natural fits.l2HitLatency),
    fieldOr_ite (Tree.natural?_natural fits.hbmLatency),
    fieldOr_ite (Tree.natural?_natural fits.l2Lines),
    fieldOr_ite (Tree.natural?_natural fits.lineSize)]
  rfl

theorem RunConfig.ofTree?_of_hasFields {c : RunConfig} (fits : c.Fits wordBound)
    (has : Tree.HasFields fieldNames (c.toTree.entries.filter fun field => keep field.1) entries) :
    ofTree? dialect (.table entries) = some (c.overlay keep) := by
  have row : (fieldNames.map fun name =>
        if keep name then c.toTree.entries.lookup name else none) =
      [if keep "max_cycles" then some (Tree.ofOption .natural c.maxCycles) else none,
        if keep "metrics_interval" then some (.natural c.metricsInterval) else none] := rfl
  have budget : Tree.optional? (Tree.natural? wordBound) (Tree.ofOption .natural c.maxCycles) =
      some c.maxCycles := by
    cases given : c.maxCycles with
    | none => rfl
    | some cycles => exact congrArg (Option.map some) (if_pos (fits.maxCycles cycles given))
  rw [ofTree?, Tree.fields?_of_kept (by simp [toTree, Tree.entries]) has, row]
  simp only [Option.bind_eq_bind, Option.bind_some, fieldOr_ite budget,
    fieldOr_ite (Tree.natural?_natural fits.metricsInterval)]
  rfl

theorem KernelConfig.ofTree?_of_hasFields {c : KernelConfig} (fits : c.Fits)
    (has : Tree.HasFields fieldNames (c.toTree.entries.filter fun field => keep field.1) entries) :
    ofTree? dialect (.table entries) = some (c.overlay keep) := by
  have row : (fieldNames.map fun name =>
        if keep name then c.toTree.entries.lookup name else none) =
      [if keep "name" then some (.text c.name) else none,
        if keep "global_size" then some c.globalSize.toArray else none,
        if keep "local_size" then some c.localSize.toArray else none,
        if keep "program" then some (.list (c.program.map fun kind => .text kind.name))
          else none] := rfl
  have program : Tree.list? (Tree.variant? dialect InstKind.all InstKind.name)
      (.list (c.program.map fun kind => .text kind.name)) = some c.program :=
    Tree.list?_map fun kind _ => kind.variant?_name
  rw [ofTree?, Tree.fields?_of_kept (by simp [toTree, Tree.entries]) has, row]
  simp only [Option.bind_eq_bind, Option.bind_some, fieldOr_ite (Tree.text?_text c.name),
    fieldOr_ite (Dim3.ofArray?_toArray fits.globalSize),
    fieldOr_ite (Dim3.ofArray?_toArray fits.localSize), fieldOr_ite program]
  rfl

end Overlay

/-! ## Whole configurations -/

/-- The table of a section, if there is one, has the given fields. A section that is missing has
none. -/
def Tree.SectionHas (names : List String) (fields : List (String × Tree)) : Option Tree → Prop
  | none => fields = []
  | some (.table entries) => HasFields names fields entries
  | some _ => False

/-- A section is read as its table is, or as the empty one where it is missing. -/
theorem Tree.SectionHas.fieldOr_eq {α : Type} {names : List String} {fields : List (String × Tree)}
    {part? : Option Tree} (has : SectionHas names fields part?) {read : Tree → Option α}
    {default a : α} (empty : read (.table []) = some default)
    (reads : ∀ {entries}, HasFields names fields entries → read (.table entries) = some a) :
    fieldOr default read part? = some a := by
  rcases part? with _ | t
  · cases has
    rw [fieldOr, ← empty]
    exact reads (List.Perm.refl [])
  · cases t with
    | table entries => exact reads has
    | _ => exact has.elim

namespace SimConfig

/-- The entries of a document list the kept fields of a configuration, each in its section, and
nothing else that the configuration knows. -/
def Lists (keep : String → String → Bool) (c : SimConfig) (entries : List (String × Tree)) : Prop :=
  ∀ name t, (name, t) ∈ c.toTree.entries → ∃ part? : Option Tree,
    Tree.valuesOf name entries = part?.toList ∧
      Tree.SectionHas (t.entries.map Prod.fst) (t.entries.filter fun field => keep name field.1)
        part?

variable {dialect : Dialect} {keep : String → String → Bool} {c : SimConfig}
  {entries : List (String × Tree)}

/-- A configuration is written as its four sections. -/
theorem eq_of_mem_entries {name : String} {t : Tree} (member : (name, t) ∈ c.toTree.entries) :
    name = "device" ∧ t = c.device.toTree ∨ name = "memory" ∧ t = c.memory.toTree ∨
      name = "run" ∧ t = c.run.toTree ∨ name = "kernel" ∧ t = c.kernel.toTree := by
  simpa [toTree, Tree.entries] using member

/-- What lists the kept fields of a configuration is read as its overlay on the defaults. -/
theorem ofTree?_of_lists (fits : c.Fits wordBound) (lists : c.Lists keep entries) :
    ofTree? dialect (.table entries) = some (c.overlay keep) := by
  obtain ⟨device, one_device, has_device⟩ := lists "device" _ (.head _)
  obtain ⟨memory, one_memory, has_memory⟩ := lists "memory" _ (.tail _ (.head _))
  obtain ⟨run, one_run, has_run⟩ := lists "run" _ (.tail _ (.tail _ (.head _)))
  obtain ⟨kernel, one_kernel, has_kernel⟩ :=
    lists "kernel" _ (.tail _ (.tail _ (.tail _ (.head _))))
  let part? : String → Option Tree := fun name =>
    if name = "device" then device else if name = "memory" then memory
    else if name = "run" then run else kernel
  have stands : ∀ name ∈ sectionNames, Tree.valuesOf name entries = (part? name).toList := by
    intro name known
    simp only [sectionNames, List.mem_cons, List.not_mem_nil, or_false] at known
    rcases known with rfl | rfl | rfl | rfl
    · exact one_device
    · exact one_memory
    · exact one_run
    · exact one_kernel
  have row : (Tree.table entries).fields? dialect sectionNames true =
      some [device, memory, run, kernel] := (Tree.fields?_of_valuesOf stands).trans rfl
  have device_read : fieldOr {} (DeviceConfig.ofTree? dialect) device =
      some (c.device.overlay (keep "device")) :=
    has_device.fieldOr_eq rfl (DeviceConfig.ofTree?_of_hasFields fits.device)
  have memory_read : fieldOr {} (MemoryConfig.ofTree? dialect) memory =
      some (c.memory.overlay (keep "memory")) :=
    has_memory.fieldOr_eq rfl (MemoryConfig.ofTree?_of_hasFields fits.memory)
  have run_read : fieldOr {} (RunConfig.ofTree? dialect) run =
      some (c.run.overlay (keep "run")) :=
    has_run.fieldOr_eq rfl (RunConfig.ofTree?_of_hasFields fits.run)
  have kernel_read : fieldOr {} (KernelConfig.ofTree? dialect) kernel =
      some (c.kernel.overlay (keep "kernel")) :=
    has_kernel.fieldOr_eq rfl (KernelConfig.ofTree?_of_hasFields fits.kernel)
  rw [ofTree?, row]
  simp only [Option.bind_eq_bind, Option.bind_some, device_read, memory_read, run_read, kernel_read]
  rfl

/-- Everything is kept of a configuration that is its own overlay. -/
theorem overlay_true (c : SimConfig) : c.overlay (fun _ _ => true) = c := rfl

/-- A configuration is read from the tree that it is written as. -/
theorem ofTree?_toTree (fits : c.Fits wordBound) : ofTree? dialect c.toTree = some c := by
  have whole : ∀ {fields : List (String × Tree)},
      Tree.SectionHas (fields.map Prod.fst) (fields.filter fun _ => true) (some (.table fields)) := by
    intro fields
    rw [List.filter_true]
    exact Tree.hasFields_refl fun field member => List.mem_map_of_mem member
  have lists : c.Lists (fun _ _ => true) c.toTree.entries := by
    intro name t member
    refine ⟨some t, ?_, ?_⟩
    · rcases eq_of_mem_entries member with ⟨rfl, rfl⟩ | ⟨rfl, rfl⟩ | ⟨rfl, rfl⟩ | ⟨rfl, rfl⟩
      all_goals rfl
    · rcases eq_of_mem_entries member with ⟨-, rfl⟩ | ⟨-, rfl⟩ | ⟨-, rfl⟩ | ⟨-, rfl⟩
      all_goals exact whole
  exact ofTree?_of_lists fits lists

/-! ## Files -/

variable {text : String}

theorem fits_of_parse? (denotes : parse? text = some c) : c.Fits wordBound := by
  obtain ⟨t, -, read⟩ := Option.bind_eq_some_iff.mp denotes
  exact fits_of_ofTree? read

/-- A text that denotes a valid configuration is that configuration. -/
theorem ofToml_of_valid (denotes : parse? text = some c) (valid : c.device.validate = .ok ()) :
    ofToml text = .ok c := by
  delta ofToml
  rw [denotes]
  simp only [valid]
  rfl

/-- A text is refused for what is wrong with its device section. -/
theorem ofToml_of_invalid {e : Error} (denotes : parse? text = some c)
    (refused : c.device.validate = .error e) : ofToml text = .error e := by
  delta ofToml
  rw [denotes]
  simp only [refused]
  rfl

end SimConfig

end Accelerator
