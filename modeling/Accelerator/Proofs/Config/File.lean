import Accelerator.Proofs.Config
import Accelerator.Proofs.Device.Building
import Accelerator.Proofs.Document.Toml.Writing

/-!
# Configuration files are overlays on the defaults

A configuration file lists some fields of a configuration, each below the header of its section, in any
order and among whatever else. It is read as the overlay of these fields on the defaults, if the device
section of the overlay is valid, and is refused for what is wrong with that section otherwise
(`SimConfig.ofToml_of_listing`). Every configuration has such a file, whichever of its fields are kept,
if its numbers are integers of the format (`SimConfig.exists_file_of_fits`).
-/

namespace Accelerator

namespace SimConfig

/-- Is there a field of the second name in the section of the first one? -/
def knows (name field : String) : Bool :=
  match name with
  | "device" => DeviceConfig.fieldNames.contains field
  | "memory" => MemoryConfig.fieldNames.contains field
  | "run" => RunConfig.fieldNames.contains field
  | "kernel" => KernelConfig.fieldNames.contains field
  | _ => false

/-- All fields of a configuration: the name of the section, that of the field, and the value. -/
def fields (c : SimConfig) : List (String × String × Tree) :=
  c.toTree.entries.flatMap fun entry => entry.2.entries.map fun field => (entry.1, field)

/-- The kept fields of a configuration, without those that are absent. -/
def listing (keep : String → String → Bool) (c : SimConfig) : List (String × String × Tree) :=
  c.fields.filter fun field => keep field.1 field.2.1 && !field.2.2.isNull

variable {c : SimConfig} {keep : String → String → Bool}

theorem nodup_listing (keep : String → String → Bool) (c : SimConfig) :
    ((c.listing keep).map fun field => (field.1, field.2.1)).Nodup := by
  have all : (c.fields.map fun field => (field.1, field.2.1)).Nodup := by
    have names : (c.fields.map fun field => (field.1, field.2.1)) =
        (({} : SimConfig).fields.map fun field => (field.1, field.2.1)) := rfl
    rw [names]
    decide
  exact (List.filter_sublist.map _).nodup all

theorem listedIn_filter (name : String) (fields : List (String × String × Tree))
    (kept : String × String × Tree → Bool) : Toml.listedIn name (fields.filter kept) =
      (Toml.listedIn name fields).filter fun field => kept (name, field) := by
  rw [Toml.listedIn, Toml.listedIn, List.filter_filter, List.filter_map, List.filter_filter]
  congr 1
  refine List.filter_congr fun field _ => ?_
  by_cases same : field.1 = name
  · subst same
    simp
  · have differs : (field.1 == name) = false := by simpa using same
    simp [differs]

/-- In each section the listed fields are those that are kept and present. -/
theorem listedIn_listing {name : String} {t : Tree} (member : (name, t) ∈ c.toTree.entries) :
    Toml.listedIn name (c.listing keep) =
      t.entries.filter fun field => keep name field.1 && !field.2.isNull := by
  have whole : Toml.listedIn name c.fields = t.entries := by
    rcases eq_of_mem_entries member with ⟨rfl, rfl⟩ | ⟨rfl, rfl⟩ | ⟨rfl, rfl⟩ | ⟨rfl, rfl⟩
    all_goals rfl
  rw [listing, listedIn_filter, whole]

/-- The only field that can be absent has nothing as its default, so that it need not be kept. -/
def present (c : SimConfig) (keep : String → String → Bool) (name field : String) : Bool :=
  keep name field && !(name == "run" && field == "max_cycles" && c.run.maxCycles.isNone)

theorem overlay_present (keep : String → String → Bool) (c : SimConfig) :
    c.overlay (c.present keep) = c.overlay keep := by
  have budget : (if c.present keep "run" "max_cycles" then c.run.maxCycles else none) =
      if keep "run" "max_cycles" then c.run.maxCycles else none := by
    cases given : c.run.maxCycles <;> simp [present, given]
  simp only [overlay, DeviceConfig.overlay, MemoryConfig.overlay, RunConfig.overlay,
    KernelConfig.overlay, budget]
  simp [present]

theorem filter_present {name : String} {t : Tree} (member : (name, t) ∈ c.toTree.entries) :
    (t.entries.filter fun field => keep name field.1 && !field.2.isNull) =
      t.entries.filter fun field => c.present keep name field.1 := by
  refine List.filter_congr fun field among => ?_
  rcases eq_of_mem_entries member with ⟨rfl, rfl⟩ | ⟨rfl, rfl⟩ | ⟨rfl, rfl⟩ | ⟨rfl, rfl⟩
  all_goals
    simp only [DeviceConfig.toTree, MemoryConfig.toTree, RunConfig.toTree, KernelConfig.toTree,
      Tree.entries, List.mem_cons, List.not_mem_nil, or_false] at among
  · rcases among with rfl | rfl | rfl | rfl | rfl <;> simp [present, Tree.isNull]
  · rcases among with rfl | rfl | rfl | rfl <;> simp [present, Tree.isNull]
  · rcases among with rfl | rfl
    · cases given : c.run.maxCycles <;> simp [present, Tree.isNull, Tree.ofOption, given]
    · simp [present, Tree.isNull]
  · rcases among with rfl | rfl | rfl | rfl <;> simp [present, Tree.isNull, Dim3.toArray]

theorem knows_eq {name : String} {t : Tree} (member : (name, t) ∈ c.toTree.entries) :
    knows name = fun field => (t.entries.map Prod.fst).contains field := by
  rcases eq_of_mem_entries member with ⟨rfl, rfl⟩ | ⟨rfl, rfl⟩ | ⟨rfl, rfl⟩ | ⟨rfl, rfl⟩
  all_goals rfl

theorem exists_knows {name : String} {t : Tree} (member : (name, t) ∈ c.toTree.entries) :
    ∃ field, knows name field = true := by
  rcases eq_of_mem_entries member with ⟨rfl, -⟩ | ⟨rfl, -⟩ | ⟨rfl, -⟩ | ⟨rfl, -⟩
  · exact ⟨"placement", rfl⟩
  · exact ⟨"line_size", rfl⟩
  · exact ⟨"max_cycles", rfl⟩
  · exact ⟨"name", rfl⟩

end SimConfig

/-- A section that holds the listed fields has them. -/
theorem Toml.HoldsListed.sectionHas {names : List String} {listed fields : List (String × Tree)}
    {part? : Option Tree} (holds : Toml.HoldsListed (fun field => names.contains field) listed part?)
    (same : listed.Perm fields) : Tree.SectionHas names fields part? := by
  rcases part? with _ | t
  · have none : listed = [] := holds
    subst none
    exact same.nil_eq.symm
  · cases t with
    | table entries =>
        have here : (entries.filter fun entry => names.contains entry.1) = listed := holds
        show ((entries.filter fun entry => names.contains entry.1)).Perm fields
        rw [here]
        exact same
    | _ => exact holds.elim

namespace SimConfig

variable {c : SimConfig} {keep : String → String → Bool} {text : String}
  {statements others : List Toml.Statement} {fields : List (String × String × Tree)}

/-- A document that lists the kept fields of a configuration, and besides says what is in order by
itself, denotes the overlay of the configuration on the defaults. -/
theorem parse?_of_listing (fits : c.Fits wordBound) (spelled : Toml.TextDocument statements text)
    (splits : Toml.Splits knows [] statements fields others)
    (valid : (Toml.ofStatements? others).isSome) (listed : fields.Perm (c.listing keep)) :
    parse? text = some (c.overlay keep) := by
  have distinct : (fields.map fun field => (field.1, field.2.1)).Nodup :=
    (listed.map _).nodup_iff.mpr (nodup_listing keep c)
  obtain ⟨entries, denotes, sections⟩ := Toml.exists_entries_of_splits splits distinct valid
  have lists : c.Lists (c.present keep) entries := by
    intro name t member
    obtain ⟨field, is_known⟩ := exists_knows member
    obtain ⟨part?, one, holds⟩ := sections name field is_known
    rw [knows_eq member] at holds
    refine ⟨part?, one, holds.sectionHas ?_⟩
    rw [← filter_present member, ← listedIn_listing member]
    exact (listed.filter _).map _
  rw [parse?, Toml.parse?_of_spelled spelled, denotes, ← overlay_present]
  exact ofTree?_of_lists fits lists

/-- Whatever fits below a bound fits below a larger one. -/
theorem Fits.mono {bound larger : Nat} (fits : c.Fits bound) (larger_bound : bound ≤ larger) :
    c.Fits larger where
  device := { fits.device with
    computeUnits := Nat.lt_of_lt_of_le fits.device.computeUnits larger_bound
    streamCores := Nat.lt_of_lt_of_le fits.device.streamCores larger_bound }
  memory := {
    l2HitLatency := Nat.lt_of_lt_of_le fits.memory.l2HitLatency larger_bound
    hbmLatency := Nat.lt_of_lt_of_le fits.memory.hbmLatency larger_bound
    l2Lines := Nat.lt_of_lt_of_le fits.memory.l2Lines larger_bound
    lineSize := Nat.lt_of_lt_of_le fits.memory.lineSize larger_bound }
  run := {
    maxCycles := fun cycles given =>
      Nat.lt_of_lt_of_le (fits.run.maxCycles cycles given) larger_bound
    metricsInterval := Nat.lt_of_lt_of_le fits.run.metricsInterval larger_bound }
  kernel := fits.kernel

/-! ## Every configuration has a file -/

/-- What is kept of each section and is present. -/
def sections (keep : String → String → Bool) (c : SimConfig) :
    List (String × List (String × Tree)) :=
  c.toTree.entries.map fun entry =>
    (entry.1, entry.2.entries.filter fun field => keep entry.1 field.1 && !field.2.isNull)

theorem listing_eq_flatMap (keep : String → String → Bool) (c : SimConfig) : c.listing keep =
    (c.sections keep).flatMap fun listed => listed.2.map fun field => (listed.1, field) := by
  rw [listing, fields, sections, List.filter_flatMap, List.flatMap_map]
  refine congrArg (List.flatMap · c.toTree.entries) (funext fun entry => ?_)
  rw [List.filter_map]
  rfl

theorem exists_of_mem_sections {listed : String × List (String × Tree)}
    (among : listed ∈ c.sections keep) {field : String × Tree} (within : field ∈ listed.2) :
    ∃ t, (listed.1, t) ∈ c.toTree.entries ∧ field ∈ t.entries ∧ field.2.isNull = false := by
  obtain ⟨⟨name, t⟩, member, rfl⟩ := List.mem_map.mp among
  obtain ⟨there, kept⟩ := List.mem_filter.mp within
  rw [Bool.and_eq_true, Bool.not_eq_true'] at kept
  exact ⟨t, member, there, kept.2⟩

theorem isWritable_toArray {d : Dim3} (fits : d.Fits) : Toml.IsWritable d.toArray := by
  refine .list fun item member => ?_
  obtain ⟨n, extent, rfl⟩ := List.mem_map.mp member
  have small : n < countBound := by
    simp only [Dim3.toList, List.mem_cons, List.not_mem_nil, or_false] at extent
    rcases extent with rfl | rfl | rfl
    · exact fits.x
    · exact fits.y
    · exact fits.z
  exact Nat.le_of_lt (Nat.lt_trans small (by decide))

/-- All that is present in a configuration can be written, if its numbers can. -/
theorem isWritable_of_fits (fits : c.Fits (Toml.integerLimit + 1)) {name : String} {t : Tree}
    (member : (name, t) ∈ c.toTree.entries) {field : String × Tree} (among : field ∈ t.entries)
    (present : field.2.isNull = false) : Toml.IsWritable field.2 := by
  have word : ∀ {n}, n < Toml.integerLimit + 1 → Toml.IsWritable (.natural n) := fun small =>
    .plain (Nat.le_of_lt_succ small)
  have count : ∀ {n}, n < countBound → Toml.IsWritable (.natural n) := fun small =>
    word (Nat.lt_trans small (by decide))
  rcases eq_of_mem_entries member with ⟨rfl, rfl⟩ | ⟨rfl, rfl⟩ | ⟨rfl, rfl⟩ | ⟨rfl, rfl⟩
  all_goals
    simp only [DeviceConfig.toTree, MemoryConfig.toTree, RunConfig.toTree, KernelConfig.toTree,
      Tree.entries, List.mem_cons, List.not_mem_nil, or_false] at among
  · rcases among with rfl | rfl | rfl | rfl | rfl
    · exact word fits.device.computeUnits
    · exact word fits.device.streamCores
    · exact count fits.device.wavefrontSize
    · exact count fits.device.maxGroupSize
    · exact .plain trivial
  · rcases among with rfl | rfl | rfl | rfl
    · exact word fits.memory.l2HitLatency
    · exact word fits.memory.hbmLatency
    · exact word fits.memory.l2Lines
    · exact word fits.memory.lineSize
  · rcases among with rfl | rfl
    · cases given : c.run.maxCycles with
      | none =>
          rw [given] at present
          cases present
      | some cycles => exact word (fits.run.maxCycles cycles given)
    · exact word fits.run.metricsInterval
  · rcases among with rfl | rfl | rfl | rfl
    · exact .plain trivial
    · exact isWritable_toArray fits.kernel.globalSize
    · exact isWritable_toArray fits.kernel.localSize
    · refine .list fun item member => ?_
      obtain ⟨kind, -, rfl⟩ := List.mem_map.mp member
      exact trivial

/-- Whichever fields of a configuration are kept, there is a document that lists just these. -/
theorem exists_file_of_fits (fits : c.Fits (Toml.integerLimit + 1))
    (keep : String → String → Bool) : ∃ text statements others,
      Toml.TextDocument statements text ∧
        Toml.Splits knows [] statements (c.listing keep) others ∧
          (Toml.ofStatements? others).isSome := by
  have known : ∀ listed ∈ c.sections keep, ∀ field ∈ listed.2, knows listed.1 field.1 = true := by
    intro listed among field within
    obtain ⟨t, member, there, -⟩ := exists_of_mem_sections among within
    rw [knows_eq member, List.contains_iff_mem]
    exact List.mem_map_of_mem there
  have writable : ∀ listed ∈ c.sections keep, ∀ field ∈ listed.2, Toml.IsWritable field.2 := by
    intro listed among field within
    obtain ⟨t, member, there, present⟩ := exists_of_mem_sections among within
    exact isWritable_of_fits fits member there present
  obtain ⟨text, spelled⟩ := Toml.exists_textDocument_ofSections writable
  have splits := Toml.splits_ofSections known []
  rw [← listing_eq_flatMap] at splits
  exact ⟨text, _, _, spelled, splits, rfl⟩

/-- Every configuration with a valid device section and with numbers that can be written is read from
some file. -/
theorem exists_ofToml_eq (fits : c.Fits (Toml.integerLimit + 1)) (valid : c.device.validate = .ok ()) :
    ∃ text, ofToml text = .ok c := by
  obtain ⟨text, statements, others, spelled, splits, in_order⟩ :=
    exists_file_of_fits fits fun _ _ => true
  have denotes := parse?_of_listing (fits.mono (by decide)) spelled splits in_order (.refl _)
  rw [overlay_true] at denotes
  exact ⟨text, ofToml_of_valid denotes valid⟩

/-! ## Files as overlays -/

/-- A configuration file is an overlay on the defaults, for every configuration whose numbers are below
2⁶³ and for whichever of its fields are listed. It is refused only if the device section of the overlay
is invalid, and then for that reason. -/
theorem ofToml_of_listing (fits : c.Fits (Toml.integerLimit + 1))
    (spelled : Toml.TextDocument statements text)
    (splits : Toml.Splits knows [] statements fields others)
    (valid : (Toml.ofStatements? others).isSome) (listed : fields.Perm (c.listing keep)) :
    let o := c.overlay keep
    (o.device.validate = .ok () → ofToml text = .ok o) ∧
      ∀ e, o.device.validate = .error e →
        ofToml text = .error e ∧ ∃ reason, e = .invalidConfig reason := by
  intro o
  have denotes : parse? text = some o :=
    parse?_of_listing (fits.mono (by decide)) spelled splits valid listed
  refine ⟨fun accepted => ofToml_of_valid denotes accepted, fun e refused =>
    ⟨ofToml_of_invalid denotes refused, ?_⟩⟩
  rcases o.device.validate_cases with accepted | ⟨reason, error⟩
  · rw [refused] at accepted
    cases accepted
  · rw [refused] at error
    cases error
    exact ⟨reason, rfl⟩

/-! ## A file with one known field -/

section FourUnits

open Toml

/-- The header of the device section, an unknown field and a known one. -/
def fourUnits : List Statement :=
  [.table ⟨[], "device"⟩, .entry ⟨[], "colour"⟩ (.natural 3),
    .entry ⟨[], "num_compute_units"⟩ (.natural 4)]

theorem textDocument_fourUnits :
    TextDocument fourUnits "[device]\ncolour = 3\nnum_compute_units = 4\n" := by
  have line : ∀ {st cs statements rest}, StatementSpelled st cs → DocumentSpelled statements rest →
      DocumentSpelled (st :: statements) (cs ++ '\n' :: rest) := by
    intro st cs statements rest spelled others
    have lines := DocumentSpelled.cons Toml.blanks_nil
      (.statement spelled Toml.blanks_nil (.inl rfl)) (by simp : ['\n'] ∈ _) others
    simpa using lines
  have blank : Blanks [' '] := by simp [Blanks, Toml.isBlank]
  have bare : ∀ name, name.toList ≠ [] → (name.toList.all isBareChar) = true →
      NameSpelled name name.toList := fun name some_char bare =>
    nameSpelled_of_bare some_char (List.all_eq_true.mp bare)
  have digit : ∀ c, c.isDigit = true → c ≠ '0' → ofDigits 10 [c] ≤ integerLimit →
      ValueSpelled (.natural (ofDigits 10 [c])) [c] := fun c digit no_zero small =>
    .plain (.natural (.digits digit no_zero (by simp)) small)
  have header := StatementSpelled.header Toml.blanks_nil (bare "device" (by decide) (by decide))
    Toml.blanks_nil
  have colour := StatementSpelled.entry (bare "colour" (by decide) (by decide)) blank blank
    (digit '3' rfl (by decide) (by decide))
  have units := StatementSpelled.entry (bare "num_compute_units" (by decide) (by decide)) blank blank
    (digit '4' rfl (by decide) (by decide))
  have ended : DocumentSpelled [] [] := .last Toml.blanks_nil .empty
  refine ⟨[], _, by simp, line header (line colour (line units ended)), ?_⟩
  decide

theorem ofToml_of_four_units :
    ofToml "[device]\ncolour = 3\nnum_compute_units = 4\n" =
      .ok { device := { computeUnits := 4 } } := by
  let c : SimConfig := { device := { computeUnits := 4 } }
  let keep (name field : String) : Bool := field == "num_compute_units"
  have fits : c.Fits (integerLimit + 1) := {
    device := ⟨by decide, by decide, by decide, by decide⟩
    memory := ⟨by decide, by decide, by decide, by decide⟩
    run := ⟨nofun, by decide⟩
    kernel := ⟨⟨by decide, by decide, by decide⟩, ⟨by decide, by decide, by decide⟩⟩ }
  have splits : Splits knows [] fourUnits [("device", "num_compute_units", .natural 4)]
      [.table ⟨[], "device"⟩, .entry ⟨[], "colour"⟩ (.natural 3)] :=
    .other (.inr ⟨"device", rfl⟩) (.other (.inl rfl) (.field rfl .nil))
  have listed : [("device", "num_compute_units", .natural 4)].Perm (c.listing keep) := .refl _
  have whole : c.overlay keep = c := by decide
  obtain ⟨accepts, -⟩ := ofToml_of_listing fits textDocument_fourUnits splits rfl listed
  rw [whole] at accepts
  have valid_device : DeviceConfig.validate { computeUnits := 4 } = .ok () := by
    simp [DeviceConfig.validate, pure, Except.pure]
  exact accepts valid_device

end FourUnits

end SimConfig

end Accelerator
