import Accelerator.FileTree

/-!
# What becomes of files

Files come and go, but directories stay where they are. So a path leads to the same place whatever has
been done to files, and a text that is written to one path and moved to another is found there
(`FileTree.HasRoom.replace`).
-/

namespace Accelerator.FileTree

variable {t after : FileTree} {place : Place} {node : FileNode} {path scratch text : String}

/-! ## Places -/

/-- Taking one place out of a table makes no difference for the others. -/
theorem find?_filter_ne (nodes : List (Place × FileNode)) (place other : Place) :
    (nodes.filter (·.1 != place)).find? (·.1 == other) =
      if other = place then none else nodes.find? (·.1 == other) := by
  rw [List.find?_filter]
  split
  next same =>
      refine List.find?_eq_none.mpr fun entry _ => ?_
      by_cases here : entry.1 = place <;> simp [here, same]
  next differs =>
      congr 1
      funext entry
      by_cases here : entry.1 = other <;> simp [here, differs]

theorem node?_erase (named : place ≠ []) (other : Place) :
    (t.erase place).node? other = if other = place then none else t.node? other := by
  rcases other with _ | ⟨first, rest⟩
  · rw [if_neg (Ne.symm named)]
    rfl
  · simp only [node?, erase, find?_filter_ne]
    split <;> rfl

theorem node?_put (named : place ≠ []) (other : Place) :
    (t.put place node).node? other = if other = place then some node else t.node? other := by
  rcases other with _ | ⟨first, rest⟩
  · rw [if_neg (Ne.symm named)]
    rfl
  · simp only [node?, put, List.find?_append, find?_filter_ne]
    split
    next same => simp [same]
    next differs => simp [Ne.symm differs]

/-! ## Directories -/

/-- Directories are where they were. -/
structure SameDirectories (t after : FileTree) : Prop where
  current : after.current = t.current
  directory : ∀ place isOpen,
    after.node? place = some (.directory isOpen) ↔ t.node? place = some (.directory isOpen)

namespace SameDirectories

theorem trans {third : FileTree} (first : SameDirectories t after)
    (second : SameDirectories after third) : SameDirectories t third where
  current := second.current.trans first.current
  directory place isOpen := (second.directory place isOpen).trans (first.directory place isOpen)

theorem enter?_eq (same : SameDirectories t after) : after.enter? = t.enter? := by
  funext place part
  have directory := same.directory (place ++ [part])
  unfold enter?
  rcases here : t.node? (place ++ [part]) with _ | (isOpen | text | kind) <;>
    rcases there : after.node? (place ++ [part]) with _ | (isOpen' | text' | kind') <;>
    simp_all

/-- A path leads to the same place. -/
theorem locate?_eq (same : SameDirectories t after) (path : String) :
    after.locate? path = t.locate? path := by
  simp only [locate?, same.current, same.enter?_eq]

theorem isOpenAt_eq (same : SameDirectories t after) (place : Place) :
    after.isOpenAt place = t.isOpenAt place := by
  rw [Bool.eq_iff_iff, isOpenAt, isOpenAt, beq_iff_eq, beq_iff_eq]
  exact same.directory _ _

end SameDirectories

/-- No directory is at the place. -/
def IsFree (t : FileTree) (place : Place) : Prop :=
  ∀ isOpen, t.node? place ≠ some (.directory isOpen)

/-- The root is a directory. -/
theorem IsFree.ne_nil (free : t.IsFree place) : place ≠ [] := by
  rintro rfl
  exact free true rfl

theorem IsFree.sameDirectories_put (free : t.IsFree place) (text : String) :
    SameDirectories t (t.put place (.file text)) where
  current := rfl
  directory other isOpen := by
    rw [node?_put free.ne_nil]
    split
    next same =>
        subst same
        exact iff_of_false (fun found => by cases found) (free isOpen)
    next => rfl

theorem IsFree.sameDirectories_erase (free : t.IsFree place) : SameDirectories t (t.erase place) where
  current := rfl
  directory other isOpen := by
    rw [node?_erase free.ne_nil]
    split
    next same =>
        subst same
        exact iff_of_false (fun found => by cases found) (free isOpen)
    next => rfl

theorem SameDirectories.isFree (same : SameDirectories t after) (free : t.IsFree place) :
    after.IsFree place := fun isOpen found => free isOpen ((same.directory place isOpen).mp found)

/-! ## Texts -/

/-- What has been put at a path is read there. -/
theorem read?_put (located : t.locate? path = some place) (free : t.IsFree place) (text : String) :
    (t.put place (.file text)).read? path = some text := by
  rw [read?, (free.sameDirectories_put text).locate?_eq, located, Option.bind_some,
    node?_put free.ne_nil, if_pos rfl]

/-- A file can be at a place: no directory is there, and if nothing is there files may be created. -/
structure Takes (t : FileTree) (place : Place) : Prop where
  free : t.IsFree place
  isOpen : t.node? place = none → t.isOpenAt place = true

/-- A text can be put at the second path by way of the first one. -/
structure HasRoom (t : FileTree) (scratch path : String) : Prop where
  /-- A file can be made at the first path, and no special file takes the text. -/
  scratch : ∃ place, t.locate? scratch = some place ∧ t.Takes place ∧
    ∀ kind, t.node? place ≠ some (.special kind)
  /-- The file can be moved to the second path. -/
  path : ∃ place, t.locate? path = some place ∧ t.Takes place

theorem create?_of_takes (located : t.locate? path = some place) (takes : t.Takes place)
    (plain : ∀ kind, t.node? place ≠ some (.special kind)) :
    t.create? path = some (t.put place (.file "")) := by
  rw [create?, located, Option.bind_eq_bind, Option.bind_some]
  rcases here : t.node? place with _ | (isOpen | text | kind)
  · simp only [takes.isOpen here, if_true]
  · exact absurd here (takes.free isOpen)
  · rfl
  · exact absurd here (plain kind)

theorem write?_of_file {old : String} (located : t.locate? path = some place)
    (here : t.node? place = some (.file old)) (text : String) :
    t.write? path text = some (t.put place (.file text)) := by
  rw [write?, located, Option.bind_eq_bind, Option.bind_some, here]
  rfl

theorem rename?_of_file {goal : Place} (located : t.locate? scratch = some place)
    (here : t.node? place = some (.file text)) (located' : t.locate? path = some goal)
    (takes : t.Takes goal) :
    t.rename? scratch path = some ((t.erase place).put goal (.file text)) := by
  simp only [rename?, located, text?, here, located', Option.bind_eq_bind, Option.bind_some]
  rcases there : t.node? goal with _ | (isOpen | old | kind)
  · simp only [takes.isOpen there, if_true]
  · exact absurd there (takes.free isOpen)
  · rfl
  · rfl

/-- A text that is written to a path and moved to another is found there. -/
theorem HasRoom.replace (room : t.HasRoom scratch path) (text : String) :
    ∃ made written moved, t.create? scratch = some made ∧
      made.write? scratch text = some written ∧ written.rename? scratch path = some moved ∧
      moved.read? path = some text := by
  obtain ⟨⟨place, located, takes, plain⟩, goal, located', takes'⟩ := room
  let made := t.put place (.file "")
  let written := made.put place (.file text)
  have first : SameDirectories t made := takes.free.sameDirectories_put ""
  have free := first.isFree takes.free
  have empty : made.node? place = some (.file "") := by
    rw [node?_put takes.free.ne_nil, if_pos rfl]
  have both : SameDirectories t written := first.trans (free.sameDirectories_put text)
  have here : written.node? place = some (.file text) := by
    rw [node?_put free.ne_nil, if_pos rfl]
  have takes'' : written.Takes goal := by
    refine ⟨both.isFree takes'.free, fun none_there => ?_⟩
    rw [both.isOpenAt_eq]
    refine takes'.isOpen ?_
    rw [node?_put free.ne_nil, node?_put takes.free.ne_nil] at none_there
    by_cases same : goal = place
    · rw [if_pos same] at none_there
      cases none_there
    · rwa [if_neg same, if_neg same] at none_there
  refine ⟨made, written, _, create?_of_takes located takes plain,
    write?_of_file ((first.locate?_eq _).trans located) empty text,
    rename?_of_file ((both.locate?_eq _).trans located) here ((both.locate?_eq _).trans located')
      takes'', ?_⟩
  have erased := (both.isFree takes.free).sameDirectories_erase
  exact read?_put ((erased.locate?_eq _).trans ((both.locate?_eq _).trans located'))
    (erased.isFree takes''.free) text

/-! ## Other paths -/

section Apart

variable (apart : t.locate? scratch ≠ t.locate? path)
include apart

/-- What happens at a place cannot be seen from a path that leads elsewhere. -/
theorem read?_put_of_ne (located : t.locate? scratch = some place) (free : t.IsFree place)
    (text : String) : (t.put place (.file text)).read? path = t.read? path := by
  rw [read?, read?, (free.sameDirectories_put text).locate?_eq]
  rcases elsewhere : t.locate? path with _ | goal
  · rfl
  · have differs : goal ≠ place := by
      rintro rfl
      exact apart (located.trans elsewhere.symm)
    rw [Option.bind_some, node?_put free.ne_nil, if_neg differs]
    rfl

theorem read?_of_create? (created : t.create? scratch = some after) :
    SameDirectories t after ∧ after.read? path = t.read? path := by
  obtain ⟨place, located, made⟩ := Option.bind_eq_some_iff.mp created
  rcases here : t.node? place with _ | (isOpen | old | kind) <;>
    simp only [here, Option.ite_none_right_eq_some] at made
  · have free : t.IsFree place := fun isOpen found => by cases here.symm.trans found
    cases made.2
    exact ⟨free.sameDirectories_put "", read?_put_of_ne apart located free ""⟩
  · cases made
  · have free : t.IsFree place := fun isOpen found => by cases here.symm.trans found
    cases made
    exact ⟨free.sameDirectories_put "", read?_put_of_ne apart located free ""⟩
  · cases made
    exact ⟨⟨rfl, fun _ _ => Iff.rfl⟩, rfl⟩

/-- Where there is a file after a text has been written, the text is in it. -/
theorem read?_of_write? (written : t.write? scratch text = some after) :
    SameDirectories t after ∧ after.read? path = t.read? path ∧
      ∀ place old, t.locate? scratch = some place → after.text? place = some old → old = text := by
  obtain ⟨place, located, taken⟩ := Option.bind_eq_some_iff.mp written
  obtain ⟨node, here, done⟩ := Option.bind_eq_some_iff.mp taken
  rcases node with isOpen | old | kind
  · cases done
  · have free : t.IsFree place := fun isOpen found => by cases here.symm.trans found
    cases done
    refine ⟨free.sameDirectories_put text, read?_put_of_ne apart located free text, ?_⟩
    intro other old located' found
    cases located.symm.trans located'
    rw [text?, node?_put free.ne_nil, if_pos rfl] at found
    cases found
    rfl
  · -- nothing is kept, whatever is shown
    have unkept : t.text? place = none := by rw [text?, here]
    have rest : SameDirectories t after ∧ after.read? path = t.read? path ∧
        after.text? place = t.text? place := by
      cases kind <;> cases done <;> exact ⟨⟨rfl, fun _ _ => Iff.rfl⟩, rfl, rfl⟩
    refine ⟨rest.1, rest.2.1, fun other old located' found => ?_⟩
    cases located.symm.trans located'
    rw [rest.2.2, unkept] at found
    cases found

end Apart

/-- A file that is moved to a path keeps its text. -/
theorem read?_of_rename? (renamed : t.rename? scratch path = some after) :
    ∃ place text, t.locate? scratch = some place ∧ t.text? place = some text ∧
      after.read? path = some text := by
  obtain ⟨place, located, moving⟩ := Option.bind_eq_some_iff.mp renamed
  obtain ⟨text, holds, moved⟩ := Option.bind_eq_some_iff.mp moving
  obtain ⟨goal, located', replaced⟩ := Option.bind_eq_some_iff.mp moved
  refine ⟨place, text, located, holds, ?_⟩
  have filled : t.IsFree place := fun isOpen found => by rw [text?, found] at holds; cases holds
  have erased := filled.sameDirectories_erase
  have put : t.IsFree goal → (((t.erase place).put goal (.file text)).read? path = some text) :=
    fun free => read?_put ((erased.locate?_eq _).trans located') (erased.isFree free) text
  rcases there : t.node? goal with _ | (isOpen | old | kind) <;>
    simp only [there, Option.ite_none_right_eq_some] at replaced
  · cases replaced.2
    exact put fun isOpen found => by cases there.symm.trans found
  · cases replaced
  all_goals
    cases replaced
    exact put fun isOpen found => by cases there.symm.trans found

/-! ## Operations -/

/-- A name leads to a place in the current directory. -/
theorem locate?_of_name {name : String} (short : name.utf8ByteSize ≤ nameLimit)
    (printed : name.contains '\x00' = false) (single : Path.parts name = [name])
    (named : Path.isIdle name = false ∧ name ≠ Path.back) (relative : name.startsWith "/" = false) :
    t.locate? name = some (t.current ++ [name]) := by
  have whole : ¬(pathLimit < name.utf8ByteSize ∨ name.contains '\x00') := by
    rintro (long | null)
    · exact absurd (Nat.le_trans short (by decide : nameLimit ≤ pathLimit)) (Nat.not_le.mpr long)
    · rw [printed] at null
      cases null
  have last : ¬(Path.isIdle name ∨ name = Path.back ∨ nameLimit < name.utf8ByteSize) := by
    rintro (idle | back | long)
    · rw [named.1] at idle
      cases idle
    · exact named.2 back
    · exact absurd short (Nat.not_le.mpr long)
  simp only [locate?, if_neg whole, single, relative, List.getLast?_singleton, Option.bind_eq_bind,
    Option.bind_some, if_neg last]
  rfl

theorem read_run (path : String) (t : FileTree) : (files.read path).run t = (t.read? path, t) := rfl

/-- A change is made if it can be made. -/
theorem attempt_eq_true {change : FileTree → Option FileTree} :
    (attempt change).run t = (true, after) ↔ change t = some after := by
  simp only [attempt, StateT.run_bind, StateT.run_get, pure_bind]
  rcases change t with _ | changed
  · exact iff_of_false (fun same => by cases same) (fun same => by cases same)
  · exact ⟨fun same => by cases same; rfl, fun same => by cases same; rfl⟩

/-- Otherwise everything is left as it is. -/
theorem attempt_eq_false {change : FileTree → Option FileTree} :
    (attempt change).run t = (false, after) ↔ change t = none ∧ after = t := by
  simp only [attempt, StateT.run_bind, StateT.run_get, pure_bind]
  rcases change t with _ | changed
  · exact ⟨fun same => by cases same; exact ⟨rfl, rfl⟩, fun both => by cases both.2; rfl⟩
  · exact iff_of_false (fun same => by cases same) (fun both => by cases both.1)

end Accelerator.FileTree
