import Accelerator.Proofs.Document.Toml.Line
import Accelerator.Proofs.Document.Toml.Section

/-!
# What can be written in TOML

Every text can be written, with escapes where characters cannot stand for themselves, and every natural
number that is no larger than the largest integer. So can lists of these, and documents that make
statements about them.
-/

namespace Accelerator.Toml

/-! ## Digits -/

theorem digitValue_digitChar {n : Nat} (small : n < 16) :
    isHexDigit (Nat.digitChar n) = true ∧ digitValue (Nat.digitChar n) = n := by
  revert n
  decide

theorem isDigit_digitChar {n : Nat} (small : n < 10) :
    (Nat.digitChar n).isDigit = true ∧ (0 < n → Nat.digitChar n ≠ '0') := by
  revert n
  decide

theorem ofDigits_append_singleton (base : Nat) (digits : List Char) (d : Char) :
    ofDigits base (digits ++ [d]) = ofDigits base digits * base + digitValue d := by
  simp [ofDigits]

/-! ## Texts -/

/-- The number of a character below U+0080, in four digits. -/
theorem exists_code {n : Nat} (small : n < 128) : ∃ digits, digits.length = 4 ∧
    (∀ d ∈ digits, isHexDigit d = true) ∧ ofDigits 16 digits = n := by
  obtain ⟨first_hex, first⟩ := digitValue_digitChar (by omega : n / 16 < 16)
  obtain ⟨second_hex, second⟩ := digitValue_digitChar (by omega : n % 16 < 16)
  have zeros : ofDigits 16 ['0', '0'] = 0 := rfl
  refine ⟨['0', '0'] ++ [Nat.digitChar (n / 16)] ++ [Nat.digitChar (n % 16)], rfl, ?_, ?_⟩
  · have zero : isHexDigit '0' = true := rfl
    simp [zero, first_hex, second_hex]
  · rw [ofDigits_append_singleton, ofDigits_append_singleton, zeros, first, second]
    omega

/-- A character that cannot stand for itself is given by its number. -/
theorem exists_charSpelled (c : Char) {s cs : List Char} (spelled : CharsSpelled s cs) :
    ∃ cs, CharsSpelled (c :: s) cs := by
  by_cases plain : isLineChar c = true ∧ c ≠ '"' ∧ c ≠ '\\'
  · obtain ⟨visible, no_quote, no_escape⟩ := plain
    exact ⟨c :: cs, .plain visible no_quote no_escape spelled⟩
  · have small : c.toNat < 128 := by
      refine Nat.lt_of_not_le fun large => plain ⟨?_, ?_, ?_⟩
      · simp only [isLineChar, Bool.or_eq_true, Bool.and_eq_true, decide_eq_true_eq]
        omega
      all_goals
        rintro rfl
        exact absurd large (by decide)
    obtain ⟨digits, length, hex, number⟩ := exists_code small
    have which : ('u', digits.length) ∈ [('u', 4), ('U', 8)] := by
      rw [length]
      exact .head _
    have point : ofCodePoint? (ofDigits 16 digits) = some c := by
      have valid : c.toNat.isValidChar := c.valid
      rw [number, ofCodePoint?, if_pos valid, Char.ofNat_toNat]
    exact ⟨_, .hex which hex point spelled⟩

/-- Every text can be written between double quotation marks. -/
theorem exists_textSpelled (s : String) : ∃ cs, TextSpelled s cs := by
  have inside : ∀ s : List Char, ∃ cs, CharsSpelled s cs := by
    intro s
    induction s with
    | nil => exact ⟨[], .nil⟩
    | cons c s ih =>
        obtain ⟨cs, spelled⟩ := ih
        exact exists_charSpelled c spelled
  obtain ⟨cs, spelled⟩ := inside s.toList
  have basic := TextSpelled.basic spelled
  rw [String.ofList_toList] at basic
  exact ⟨_, basic⟩

/-! ## Numbers -/

/-- Every number has digits. All but the last are those of its tenth. -/
theorem exists_naturalSpelled (n : Nat) : ∃ cs, NaturalSpelled n cs := by
  induction n using Nat.strongRecOn with
  | ind n ih =>
    rcases Nat.eq_zero_or_pos n with rfl | positive
    · exact ⟨['0'], .zero⟩
    · by_cases small : n < 10
      · obtain ⟨digit, no_zero⟩ := isDigit_digitChar small
        have value := (digitValue_digitChar (by omega : n < 16)).2
        have spelled := NaturalSpelled.digits digit (no_zero positive) (List.forall_mem_nil _)
        have number : ofDigits 10 [Nat.digitChar n] = n := by simp [ofDigits, value]
        exact ⟨_, number ▸ spelled⟩
      · obtain ⟨cs, spelled⟩ := ih (n / 10) (by omega)
        have digit := (isDigit_digitChar (by omega : n % 10 < 10)).1
        have value := (digitValue_digitChar (by omega : n % 10 < 16)).2
        generalize tenth : n / 10 = m at spelled
        cases spelled with
        | zero => omega
        | @digits c cs first no_zero others =>
            have all : ∀ d ∈ cs ++ [Nat.digitChar (n % 10)], d.isDigit = true := by
              simpa [or_imp, forall_and, digit] using others
            have number : ofDigits 10 (c :: (cs ++ [Nat.digitChar (n % 10)])) = n := by
              rw [← List.cons_append, ofDigits_append_singleton, value, ← tenth]
              omega
            have spelled := NaturalSpelled.digits first no_zero all
            exact ⟨_, number ▸ spelled⟩

/-! ## Values -/

/-- A text, or a number that is no larger than the largest integer. -/
def IsPlain : Tree → Prop
  | .natural n => n ≤ integerLimit
  | .text _ => True
  | _ => False

/-- Something plain, or a list of such. -/
inductive IsWritable : Tree → Prop
  | plain {t} : IsPlain t → IsWritable t
  | list {items} : (∀ item ∈ items, IsPlain item) → IsWritable (.list items)

theorem exists_plainSpelled {t : Tree} (plain : IsPlain t) : ∃ cs, PlainSpelled t cs := by
  cases t with
  | natural n =>
      obtain ⟨cs, spelled⟩ := exists_naturalSpelled n
      exact ⟨cs, .natural spelled plain⟩
  | text s =>
      obtain ⟨cs, spelled⟩ := exists_textSpelled s
      exact ⟨cs, .text spelled⟩
  | _ => exact plain.elim

theorem exists_itemsSpelled {item : Tree} {items : List Tree}
    (plain : ∀ t ∈ item :: items, IsPlain t) : ∃ cs, ItemsSpelled (item :: items) cs := by
  have none : Spaces [] := nofun
  induction items generalizing item with
  | nil =>
      obtain ⟨cs, spelled⟩ := exists_plainSpelled (plain item (.head _))
      exact ⟨_, .one ⟨none, spelled, none⟩⟩
  | cons next rest ih =>
      obtain ⟨first, others⟩ := List.forall_mem_cons.mp plain
      obtain ⟨cs, spelled⟩ := exists_plainSpelled first
      obtain ⟨more, rest_spelled⟩ := ih others
      exact ⟨_, .cons ⟨none, spelled, none⟩ rest_spelled⟩

theorem exists_valueSpelled {t : Tree} (writable : IsWritable t) : ∃ cs, ValueSpelled t cs := by
  cases writable with
  | plain plain =>
      obtain ⟨cs, spelled⟩ := exists_plainSpelled plain
      exact ⟨cs, .plain spelled⟩
  | @list items plain =>
      cases items with
      | nil =>
          have none : Spaces [] := nofun
          exact ⟨_, .noItems none⟩
      | cons item items =>
          obtain ⟨cs, spelled⟩ := exists_itemsSpelled plain
          exact ⟨_, .items spelled⟩

/-! ## Documents -/

/-- A header of one part, or an entry below it with something that can be written. -/
inductive Writable : Statement → Prop
  | header (name) : Writable (.table ⟨[], name⟩)
  | entry (name) {t} : IsWritable t → Writable (.entry ⟨[], name⟩ t)

theorem exists_statementSpelled {st : Statement} (writable : Writable st) :
    ∃ cs, StatementSpelled st cs := by
  cases writable with
  | header name =>
      obtain ⟨cs, spelled⟩ := exists_textSpelled name
      exact ⟨_, .header blanks_nil (.text spelled) blanks_nil⟩
  | entry name writable =>
      obtain ⟨cs, named⟩ := exists_textSpelled name
      obtain ⟨vs, spelled⟩ := exists_valueSpelled writable
      exact ⟨_, .entry (.text named) blanks_nil blanks_nil spelled⟩

/-- There is a text with one line for each statement. -/
theorem exists_textDocument {statements : List Statement}
    (writable : ∀ st ∈ statements, Writable st) : ∃ text, TextDocument statements text := by
  have lines : ∃ cs, DocumentSpelled statements cs := by
    induction statements with
    | nil => exact ⟨_, .last blanks_nil .empty⟩
    | cons st rest ih =>
        obtain ⟨first, others⟩ := List.forall_mem_cons.mp writable
        obtain ⟨cs, spelled⟩ := exists_statementSpelled first
        obtain ⟨more, rest_spelled⟩ := ih others
        exact ⟨_, .cons blanks_nil (.statement spelled blanks_nil (.inl rfl))
          (by simp : ['\n'] ∈ _) rest_spelled⟩
  obtain ⟨cs, spelled⟩ := lines
  exact ⟨.ofList cs, [], cs, by simp, spelled, String.toList_ofList⟩

/-! ## Sections -/

/-- The header of each section, and below it the fields that are listed there. -/
def ofSections (sections : List (String × List (String × Tree))) : List Statement :=
  sections.flatMap fun listed =>
    .table ⟨[], listed.1⟩ :: listed.2.map fun field => .entry ⟨[], field.1⟩ field.2

variable {sections : List (String × List (String × Tree))}

theorem exists_textDocument_ofSections
    (writable : ∀ listed ∈ sections, ∀ field ∈ listed.2, IsWritable field.2) :
    ∃ text, TextDocument (ofSections sections) text := by
  refine exists_textDocument fun st member => ?_
  obtain ⟨listed, among, member⟩ := List.mem_flatMap.mp member
  rcases List.mem_cons.mp member with rfl | below
  · exact .header listed.1
  · obtain ⟨field, within, rfl⟩ := List.mem_map.mp below
    exact .entry field.1 (writable listed among field within)

/-- Where all of the listed fields are known, only the headers are left besides these. -/
theorem splits_ofSections {known : String → String → Bool}
    (all : ∀ listed ∈ sections, ∀ field ∈ listed.2, known listed.1 field.1 = true)
    (current : List String) :
    Splits known current (ofSections sections)
      (sections.flatMap fun listed => listed.2.map fun field => (listed.1, field))
      (sections.map fun listed => .table ⟨[], listed.1⟩) := by
  induction sections generalizing current with
  | nil => exact .nil
  | cons listed rest ih =>
      obtain ⟨here, others⟩ := List.forall_mem_cons.mp all
      obtain ⟨name, fields⟩ := listed
      refine .other (.inr ⟨name, rfl⟩) ?_
      have below : ∀ fields : List (String × Tree), (∀ field ∈ fields, known name field.1 = true) →
          Splits known [name]
            (fields.map (fun field => Statement.entry ⟨[], field.1⟩ field.2) ++ ofSections rest)
            (fields.map (fun field => (name, field)) ++
              rest.flatMap fun listed => listed.2.map fun field => (listed.1, field))
            (rest.map fun listed => .table ⟨[], listed.1⟩) := by
        intro fields here
        induction fields with
        | nil => exact ih others [name]
        | cons field fields more =>
            obtain ⟨first, after⟩ := List.forall_mem_cons.mp here
            exact .field first (more after)
      exact below fields here

end Accelerator.Toml
