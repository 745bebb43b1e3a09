import Accelerator.Document.Decode
import Accelerator.Proofs.Traversal
import Mathlib.Data.List.Nodup
import Mathlib.Data.List.Perm.Basic

/-!
# What a record is read from

A table *has* the fields of a record if these are its entries with a name that the record knows, in
some order. What is then read from it is what stands under each name, whatever the order and whatever
else the table holds (`Tree.fields?_of_hasFields`).

For each way of reading a value there is a fact about what it reads from the value as it is written,
and one about the numbers that can come out of it.
-/

namespace Accelerator

/-! ## Entries by name -/

section Lookup

variable {β : Type}

/-- To look up a name among the entries whose name is kept. -/
theorem lookup_filter_fst (keep : String → Bool) (entries : List (String × β)) (name : String) :
    (entries.filter fun entry => keep entry.1).lookup name =
      if keep name then entries.lookup name else none := by
  induction entries with
  | nil => simp
  | cons entry rest ih =>
      obtain ⟨first, value⟩ := entry
      by_cases same : name = first
      · subst same
        cases kept : keep name <;> simp [kept, ih]
      · have differs : (name == first) = false := by simpa using same
        cases kept : keep first <;> simp [List.lookup_cons, kept, ih, differs]

end Lookup

namespace Tree

/-! ## Fields -/

/-- The entries of a table. Nothing else has any. -/
def entries : Tree → List (String × Tree)
  | table entries => entries
  | _ => []

/-- Among the entries those with a known name are the given fields, in some order. -/
def HasFields (names : List String) (fields entries : List (String × Tree)) : Prop :=
  (entries.filter fun entry => names.contains entry.1).Perm fields

variable {names : List String} {fields entries : List (String × Tree)} {name : String}

/-- Where no name is written twice at most one value stands under it. -/
theorem valuesOf_eq_toList (distinct : (fields.map Prod.fst).Nodup) :
    valuesOf name fields = (fields.lookup name).toList := by
  induction fields with
  | nil => rfl
  | cons field rest ih =>
      obtain ⟨first, value⟩ := field
      rw [List.map_cons, List.nodup_cons] at distinct
      have others := ih distinct.2
      simp only [valuesOf] at others ⊢
      by_cases same : name = first
      · subst same
        have absent : rest.lookup name = none := List.lookup_eq_none_iff.mpr fun entry member => by
          have other : name ≠ entry.1 := by
            rintro rfl
            exact distinct.1 (List.mem_map.mpr ⟨entry, member, rfl⟩)
          simpa using other
        simp [others, absent]
      · have differs : (name == first) = false := by simpa using same
        have differs' : (first == name) = false := by simpa using Ne.symm same
        simp [List.lookup_cons, differs, differs', others]

/-- What stands under a known name is what the record has there. -/
theorem HasFields.valuesOf_eq (has : HasFields names fields entries)
    (distinct : (fields.map Prod.fst).Nodup) (known : name ∈ names) :
    valuesOf name entries = (fields.lookup name).toList := by
  have among : valuesOf name entries =
      valuesOf name (entries.filter fun entry => names.contains entry.1) := by
    simp only [valuesOf, List.filter_filter]
    congr 1
    refine List.filter_congr fun entry _ => ?_
    by_cases same : entry.1 = name
    · simp [same, known]
    · simp [same]
  rw [among, ← valuesOf_eq_toList distinct]
  have perm : (valuesOf name (entries.filter fun entry => names.contains entry.1)).Perm
      (valuesOf name fields) := (has.filter _).map _
  rw [valuesOf_eq_toList distinct] at perm ⊢
  cases found : fields.lookup name with
  | none => simpa [found] using perm
  | some value => simpa [found] using perm

/-- A table in which at most one value stands under each of some names is read by them. -/
theorem fields?_of_valuesOf {dialect : Dialect} {short : Bool} {value? : String → Option Tree}
    (stands : ∀ name ∈ names, valuesOf name entries = (value? name).toList) :
    (table entries).fields? dialect names short = some (names.map value?) := by
  refine mapM_eq_some fun name known => ?_
  rw [stands name known]
  cases value? name <;> rfl

/-- A table that has the fields of a record is read by their names. -/
theorem fields?_of_hasFields {dialect : Dialect} {short : Bool}
    (has : HasFields names fields entries) (distinct : (fields.map Prod.fst).Nodup) :
    (table entries).fields? dialect names short =
      some (names.map fun name => fields.lookup name) :=
  fields?_of_valuesOf fun _ known => has.valuesOf_eq distinct known

/-- A table that has those fields of a record whose name is kept lacks the others. -/
theorem fields?_of_kept {dialect : Dialect} {short : Bool} {keep : String → Bool}
    (distinct : (fields.map Prod.fst).Nodup)
    (has : HasFields names (fields.filter fun field => keep field.1) entries) :
    (table entries).fields? dialect names short =
      some (names.map fun name => if keep name then fields.lookup name else none) := by
  rw [fields?_of_hasFields has ((List.filter_sublist.map _).nodup distinct)]
  simp only [lookup_filter_fst]

/-- A table has its own fields, if it has no others. -/
theorem hasFields_refl (known : ∀ field ∈ fields, field.1 ∈ names) :
    HasFields names fields fields := by
  rw [HasFields, List.filter_eq_self.mpr fun field member => by simpa using known field member]

/-! ## Values as they are written -/

section Values

variable {α : Type} {read : Tree → Option α} {write : α → Tree} {bound n : Nat}

theorem natural?_eq_some {t : Tree} : t.natural? bound = some n ↔ t = natural n ∧ n < bound := by
  cases t <;> simp [natural?]
  exact ⟨fun ⟨small, same⟩ => ⟨same, same ▸ small⟩, fun ⟨same, small⟩ => ⟨same ▸ small, same⟩⟩

@[simp] theorem natural?_natural (small : n < bound) : (natural n).natural? bound = some n :=
  if_pos small

@[simp] theorem text?_text (s : String) : (text s).text? = some s := rfl

theorem optional?_of_not_null {t : Tree} (present : t.isNull = false) :
    optional? read t = (read t).map some := by
  cases t with
  | null => cases present
  | _ => rfl

theorem list?_map {items : List α} (each : ∀ item ∈ items, read (write item) = some item) :
    list? read (list (items.map write)) = some items := by
  induction items with
  | nil => rfl
  | cons item rest ih =>
      rw [List.forall_mem_cons] at each
      have others := ih each.2
      rw [list?] at others ⊢
      rw [List.map_cons, List.mapM_cons, each.1, others]
      rfl

/-- A variant is found by its name if no other one has it. -/
theorem variant?_name {dialect : Dialect} {variants : List α} {name : α → String} {variant : α}
    (member : variant ∈ variants)
    (apart : ∀ other ∈ variants, name other = name variant → other = variant) :
    variant? dialect variants name (text (name variant)) = some variant := by
  cases found : variants.find? (name · == name variant) with
  | none =>
      rw [List.find?_eq_none] at found
      simpa using found variant member
  | some other =>
      have same := apart other (List.mem_of_find?_eq_some found)
        (by simpa using List.find?_some found)
      rw [variant?, found, same]

theorem triple?_natural {dialect : Dialect} {x y z : Nat} (first : x < bound) (second : y < bound)
    (third : z < bound) :
    (list [natural x, natural y, natural z]).triple? dialect (natural? bound) = some (x, y, z) := by
  simp [triple?, first, second, third]

theorem lt_of_triple? {dialect : Dialect} {t : Tree} {x y z : Nat}
    (given : t.triple? dialect (natural? bound) = some (x, y, z)) :
    x < bound ∧ y < bound ∧ z < bound := by
  unfold triple? at given
  split at given
  · rw [Option.ite_none_right_eq_some] at given
    simp only [Option.bind_eq_bind, Option.bind_eq_some_iff, Option.pure_def, Option.some.injEq,
      Prod.mk.injEq, natural?_eq_some] at given
    obtain ⟨-, _, ⟨-, first⟩, _, ⟨-, second⟩, _, ⟨-, third⟩, rfl, rfl, rfl⟩ := given
    exact ⟨first, second, third⟩
  · cases given

end Values

end Tree

/-! ## Fields with a default -/

section Default

variable {α : Type} {read : Tree → Option α} {default a : α} {bound n : Nat} {field : Option Tree}

/-- A field that is written, if some condition holds, as a value that is read. -/
theorem fieldOr_ite {t : Tree} (reads : read t = some a) {p : Prop} [Decidable p] :
    fieldOr default read (if p then some t else none) = some (if p then a else default) := by
  split
  · exact reads
  · rfl

/-- What the default has, and everything that is read, is had by what a field gives. -/
theorem of_fieldOr {P : α → Prop} (holds : P default) (each : ∀ t a, read t = some a → P a)
    (given : fieldOr default read field = some a) : P a := by
  cases field with
  | none =>
      cases given
      exact holds
  | some t => exact each t a given

/-- Every number that is read is small enough if the default is. -/
theorem lt_of_fieldOr (small : n < bound) {m : Nat}
    (given : fieldOr n (Tree.natural? bound) field = some m) : m < bound :=
  of_fieldOr (P := (· < bound)) small (fun _ _ read => (Tree.natural?_eq_some.mp read).2) given

theorem lt_of_fieldOr_optional {m : Nat}
    (given : fieldOr none (Tree.optional? (Tree.natural? bound)) field = some (some m)) :
    m < bound := by
  cases field with
  | none => cases given
  | some t =>
      cases t with
      | null => cases given
      | natural k =>
          obtain ⟨same, small⟩ : k = m ∧ k < bound := by
            simpa [fieldOr, Tree.optional?, Tree.natural?, and_comm] using given
          exact same ▸ small
      | _ => cases given

end Default

end Accelerator
