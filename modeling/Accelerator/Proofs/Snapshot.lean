import Accelerator.Proofs.Config
import Accelerator.Proofs.Document.Json.Printer
import Accelerator.Proofs.FileTree
import Accelerator.Snapshot.Publish

/-!
# Snapshots survive their files

A snapshot whose numbers fit into words is found at the path where it has been published. It is found,
too, in every other file with a table that has its fields, in whatever order and among whatever else
(`Snapshot.readFrom_of_publish`).
-/

namespace Accelerator.Snapshot

/-- All numbers of the snapshot are words, and its extents are item counts. -/
structure Fits (s : Snapshot) : Prop where
  globalSize : s.globalSize.Fits
  localSize : s.localSize.Fits
  words : ∀ n ∈ [s.cycle, s.groupsTotal, s.groupsPending, s.groupsDone, s.idleUnits, s.busyUnits,
    s.instructions, s.timestamp], n < wordBound
  unitGroups : ∀ group, some group ∈ s.unitGroups → group < wordBound
  unitSlots : ∀ slots ∈ s.unitSlots, slots < wordBound

/-- The entries of a table are the fields of a snapshot, in some order, and others that are unknown.
Pipelines can be left out if there are none. -/
def ListedIn (s : Snapshot) (entries : List (String × Tree)) : Prop :=
  Tree.HasFields fieldNames s.toTree.entries entries ∨
    s.unitSlots = [] ∧ Tree.HasFields fieldNames
      (s.toTree.entries.filter fun field => field.1 != "cu_slots_in_flight") entries

variable {s : Snapshot}

/-- The fields of a snapshot as they are found, with the pipelines written or not. -/
theorem ofTree?_of_fields? (fits : s.Fits) {t : Tree} {slots : Option Tree}
    (found : t.fields? .json fieldNames false =
      some [some (.text s.status), some (.text s.kernelName), some (.text s.placement),
        some s.globalSize.toArray, some s.localSize.toArray, some (.natural s.cycle),
        some (.natural s.groupsTotal), some (.natural s.groupsPending),
        some (.natural s.groupsDone), some (.natural s.idleUnits), some (.natural s.busyUnits),
        some (.list (s.unitGroups.map (.ofOption .natural))), slots,
        some (.natural s.instructions), some (.natural s.timestamp)])
    (pipelines : fieldOr [] (Tree.list? (Tree.natural? wordBound)) slots = some s.unitSlots) :
    ofTree? t = some s := by
  have groups : required (Tree.list? (Tree.optional? (Tree.natural? wordBound)))
      (some (.list (s.unitGroups.map (.ofOption .natural)))) = some s.unitGroups := by
    refine Tree.list?_map fun group member => ?_
    cases group with
    | none => rfl
    | some group => exact congrArg (Option.map some) (if_pos (fits.unitGroups group member))
  have words := fits.words
  simp only [List.mem_cons, List.not_mem_nil, or_false, forall_eq_or_imp, forall_eq] at words
  obtain ⟨cycle, total, pending, done, idle, busy, instructions, timestamp⟩ := words
  have text : ∀ s, required Tree.text? (some (.text s)) = some s := Tree.text?_text
  have word : ∀ {n}, n < wordBound → required (Tree.natural? wordBound) (some (.natural n)) = some n :=
    Tree.natural?_natural
  have extents : ∀ {d : Dim3}, d.Fits → required (Dim3.ofArray? .json) (some d.toArray) = some d :=
    Dim3.ofArray?_toArray
  rw [ofTree?, found, Option.bind_eq_bind, Option.bind_some]
  dsimp only
  rw [text, text, text, extents fits.globalSize, extents fits.localSize, word cycle, word total,
    word pending, word done, word idle, word busy, groups, pipelines, word instructions,
    word timestamp]
  rfl

theorem distinct_toTree (s : Snapshot) : (s.toTree.entries.map Prod.fst).Nodup := by
  simp [toTree, Tree.entries, fieldNames, fieldValues]

theorem ofTree?_of_listedIn (fits : s.Fits) {entries : List (String × Tree)}
    (listed : s.ListedIn entries) : ofTree? (.table entries) = some s := by
  have slots : Tree.list? (Tree.natural? wordBound) (.list (s.unitSlots.map .natural)) =
      some s.unitSlots := Tree.list?_map fun n member => Tree.natural?_natural (fits.unitSlots n member)
  rcases listed with whole | ⟨none, rest⟩
  · exact ofTree?_of_fields? fits ((Tree.fields?_of_hasFields whole (distinct_toTree s)).trans rfl)
      slots
  · let keep (name : String) : Bool := name != "cu_slots_in_flight"
    have kept : Tree.HasFields fieldNames (s.toTree.entries.filter fun field => keep field.1)
        entries := rest
    exact ofTree?_of_fields? fits ((Tree.fields?_of_kept (distinct_toTree s) kept).trans rfl)
      (none ▸ rfl)

theorem hasFields_toTree (s : Snapshot) :
    Tree.HasFields fieldNames s.toTree.entries s.toTree.entries :=
  Tree.hasFields_refl fun _ member => (List.of_mem_zip member).1

theorem written_toTree (s : Snapshot) : s.toTree.written = s.toTree := by
  have groups : Tree.written ∘ Tree.ofOption .natural = Tree.ofOption .natural := by
    funext group
    cases group <;> simp [Tree.ofOption]
  have words : Tree.written ∘ Tree.natural = Tree.natural := by
    funext n
    simp
  simp [toTree, fieldNames, fieldValues, Dim3.toArray, words, groups]

/-- A snapshot is denoted by every text of a table that lists it. -/
theorem parse?_of_listedIn (fits : s.Fits) {entries : List (String × Tree)} {text : String}
    (listed : s.ListedIn entries) (spelled : Json.TreeSpelled (.table entries) text) :
    parse? text = some s := by
  rw [parse?, Json.parse?_of_spelled spelled]
  exact ofTree?_of_listedIn fits listed

theorem parse?_render (fits : s.Fits) : parse? (Json.render s.toTree) = some s := by
  rw [parse?, Json.parse?_render, written_toTree]
  exact ofTree?_of_listedIn fits (.inl s.hasFields_toTree)

/-! ## Files -/

section Files

variable {σ : Type} {path scratch : String}

/-- What is read is what the text at the path denotes, if there is a text and it denotes something. -/
theorem readFrom_run (files : Files (StateM σ)) (path : String) (t : σ) :
    (readFrom files path).run t =
      (((files.read path).run t).1.bind parse?, ((files.read path).run t).2) := rfl

/-- A snapshot is written beside its place and then moved there. A step that fails is the last one. -/
theorem publish_cases (files : Files (StateM σ)) (s : Snapshot)
    (named : Path.withExtension? path "json.tmp" = some scratch) (t : σ) :
    (∃ left, (files.create scratch).run t = (false, left) ∧
      (publish files path s).run t = ((), left)) ∨
    (∃ made left, (files.create scratch).run t = (true, made) ∧
      (files.write scratch (Json.render s.toTree)).run made = (false, left) ∧
      (publish files path s).run t = ((), left)) ∨
    ∃ made written, (files.create scratch).run t = (true, made) ∧
      (files.write scratch (Json.render s.toTree)).run made = (true, written) ∧
      (publish files path s).run t = ((), ((files.rename scratch path).run written).2) := by
  rcases created : (files.create scratch).run t with ⟨_ | _, made⟩
  · refine .inl ⟨made, rfl, ?_⟩
    simp only [publish, named]
    rw [StateT.run_bind, created]
    rfl
  · have goes_on : (publish files path s).run t = (do
        if ← files.write scratch (Json.render s.toTree) then
          let _ ← files.rename scratch path : StateM σ Unit).run made := by
      simp only [publish, named]
      rw [StateT.run_bind, created]
      rfl
    rw [goes_on, StateT.run_bind]
    rcases wrote : (files.write scratch (Json.render s.toTree)).run made with ⟨_ | _, written⟩
    · exact .inr (.inl ⟨made, written, rfl, wrote, rfl⟩)
    · exact .inr (.inr ⟨made, written, rfl, wrote, rfl⟩)

end Files

section Tree

variable {path scratch : String} (named : Path.withExtension? path "json.tmp" = some scratch)
include named

/-- Nobody finds half of a snapshot: what is at its path afterwards is the whole of it or what was there
before. -/
theorem read?_publish (s : Snapshot) {t : FileTree} (apart : t.locate? scratch ≠ t.locate? path) :
    let after := ((publish FileTree.files path s).run t).2
    after.read? path = t.read? path ∨ after.read? path = some (Json.render s.toTree) := by
  intro after
  rcases publish_cases FileTree.files s named t with ⟨left, failed, done⟩ |
    ⟨made, left, created, failed, done⟩ | ⟨made, written, created, wrote, done⟩
  · obtain ⟨-, rfl⟩ := FileTree.attempt_eq_false.mp failed
    exact .inl (by rw [show after = left by simp only [after, done]])
  · obtain ⟨-, rfl⟩ := FileTree.attempt_eq_false.mp failed
    rw [show after = left by simp only [after, done]]
    exact .inl (FileTree.read?_of_create? apart (FileTree.attempt_eq_true.mp created)).2
  · obtain ⟨first, kept⟩ := FileTree.read?_of_create? apart (FileTree.attempt_eq_true.mp created)
    have apart' : made.locate? scratch ≠ made.locate? path := by
      rwa [first.locate?_eq, first.locate?_eq]
    obtain ⟨second, kept', only⟩ :=
      FileTree.read?_of_write? apart' (FileTree.attempt_eq_true.mp wrote)
    rcases moved : (FileTree.files.rename scratch path).run written with ⟨_ | _, last⟩
    · obtain ⟨-, rfl⟩ := FileTree.attempt_eq_false.mp moved
      rw [show after = last by simp only [after, done, moved]]
      exact .inl (kept'.trans kept)
    · rw [show after = last by simp only [after, done, moved]]
      obtain ⟨place, text, located, holds, found⟩ :=
        FileTree.read?_of_rename? (FileTree.attempt_eq_true.mp moved)
      rw [second.locate?_eq] at located
      exact .inr (only place text located holds ▸ found)

/-- Where there is room the snapshot is at its path afterwards. -/
theorem read?_publish_of_hasRoom (s : Snapshot) {t : FileTree} (room : t.HasRoom scratch path) :
    (((publish FileTree.files path s).run t).2).read? path = some (Json.render s.toTree) := by
  obtain ⟨made, written, moved, created, wrote, renamed, found⟩ :=
    room.replace (Json.render s.toTree)
  have created' : (FileTree.files.create scratch).run t = (true, made) :=
    FileTree.attempt_eq_true.mpr created
  have wrote' : (FileTree.files.write scratch (Json.render s.toTree)).run made = (true, written) :=
    FileTree.attempt_eq_true.mpr wrote
  have renamed' : (FileTree.files.rename scratch path).run written = (true, moved) :=
    FileTree.attempt_eq_true.mpr renamed
  rcases publish_cases FileTree.files s named t with ⟨left, failed, -⟩ |
    ⟨made', left, again, failed, -⟩ | ⟨made', written', again, again', done⟩
  · cases failed.symm.trans created'
  · cases again.symm.trans created'
    cases failed.symm.trans wrote'
  · cases again.symm.trans created'
    cases again'.symm.trans wrote'
    rw [done, renamed']
    exact found

end Tree

/-- A snapshot that is published at a path is the text of the file that is there afterwards, and it is
what is read from the path. It is read, too, from any path with a text that lists its fields. -/
theorem readFrom_of_publish (fits : s.Fits) :
    (∀ (t : FileTree) (path scratch : String),
      Path.withExtension? path "json.tmp" = some scratch → t.HasRoom scratch path →
      let after := ((publish FileTree.files path s).run t).2
      after.read? path = some (Json.render s.toTree) ∧
        (readFrom FileTree.files path).run after = (some s, after)) ∧
    ∀ (t : FileTree) (path text : String) (entries : List (String × Tree)),
      t.read? path = some text → s.ListedIn entries → Json.TreeSpelled (.table entries) text →
        (readFrom FileTree.files path).run t = (some s, t) := by
  constructor
  · intro t path scratch named room
    have found := read?_publish_of_hasRoom named s room
    refine ⟨found, ?_⟩
    rw [readFrom_run, FileTree.read_run, found, Option.bind_some, parse?_render fits]
  · intro t path text entries holds listed spelled
    rw [readFrom_run, FileTree.read_run, holds, Option.bind_some,
      parse?_of_listedIn fits listed spelled]

/-- Two units, with one slot under way, and a status that has to be escaped. -/
def twoUnits : Snapshot where
  status := "\"run\\ning\"\x07"
  globalSize := ⟨8, 1, 1⟩
  localSize := ⟨4, 1, 1⟩
  cycle := 42
  unitGroups := [some 3, none]
  unitSlots := [1, 0]

theorem locate?_live (t : FileTree) : t.locate? "live.json" = some (t.current ++ ["live.json"]) :=
  FileTree.locate?_of_name (by decide) (by simp) (by decide +kernel) (by decide +kernel)
    (by decide +kernel)

/-- A machine has room for a snapshot in its current directory. -/
theorem hasRoom_machine :
    (FileTree.machine []).HasRoom "live.json.tmp" "live.json" := by
  have takes : ∀ name ∈ ["live.json", "live.json.tmp"],
      (FileTree.machine []).node? ["tmp", "work", name] = none := by decide +kernel
  have free : ∀ name ∈ ["live.json", "live.json.tmp"],
      (FileTree.machine []).Takes ["tmp", "work", name] := fun name member =>
    ⟨fun isOpen found => by simp [takes name member] at found, fun _ => rfl⟩
  exact {
    scratch := ⟨_, FileTree.locate?_of_name (by decide) (by simp) (by decide +kernel)
      (by decide +kernel) (by decide +kernel), free _ (by simp),
      fun kind found => by cases (takes _ (by simp)).symm.trans found⟩
    path := ⟨_, locate?_live _, free _ (by simp)⟩ }

/-- It is read where it has been published, and backwards after an unknown field as well. -/
theorem readFrom_of_published_two_units :
    let after := ((publish FileTree.files "live.json" twoUnits).run (.machine [])).2
    let listed := Json.render (.table (("viewer", .list [.null]) :: twoUnits.toTree.entries.reverse))
    let found := FileTree.machine [("live.json", listed)]
    (readFrom FileTree.files "live.json").run after = (some twoUnits, after) ∧
      (readFrom FileTree.files "live.json").run found = (some twoUnits, found) := by
  have fits : twoUnits.Fits := {
    globalSize := ⟨by decide, by decide, by decide⟩
    localSize := ⟨by decide, by decide, by decide⟩
    words := by decide
    unitGroups := by simp [twoUnits, wordBound]
    unitSlots := by decide }
  have backwards : Tree.HasFields fieldNames twoUnits.toTree.entries
      (("viewer", .list [.null]) :: twoUnits.toTree.entries.reverse) :=
    ((List.reverse_perm twoUnits.toTree.entries).filter _).trans
      twoUnits.hasFields_toTree
  have spelled := Json.treeSpelled_render
    (.table (("viewer", .list [.null]) :: twoUnits.toTree.entries.reverse))
  have same : twoUnits.toTree.entries.map (fun entry => (entry.1, entry.2.written)) =
      twoUnits.toTree.entries := by
    simpa [toTree, Tree.entries] using written_toTree twoUnits
  rw [Tree.written_table, List.map_cons, List.map_reverse, same] at spelled
  obtain ⟨published, listed⟩ := readFrom_of_publish fits
  refine ⟨(published _ _ "live.json.tmp" (by decide +kernel) hasRoom_machine).2,
    listed _ _ _ _ ?_ (.inl backwards) (by simpa using spelled)⟩
  rw [FileTree.read?, locate?_live]
  rfl

end Accelerator.Snapshot
