import Accelerator.Document.Json.Printer
import Accelerator.Proofs.Document.Json.Grammar

/-!
# What is written is read back

A tree is written in the grammar of JSON, so that it is read back; what cannot be written in JSON is
read as absent (`Json.parse?_render`). The text of a tree has no character below U+0020, and so is a
single line.
-/

namespace Accelerator

/-! ## What the text of a tree denotes -/

namespace Tree

mutual

/-- The tree with everything absent that cannot be written in JSON. -/
def written : Tree → Tree
  | null | dateTime | other => .null
  | bool b => .bool b
  | natural n => .natural n
  | text s => .text s
  | list items => .list (writtenItems items)
  | table entries => .table (writtenEntries entries)

def writtenItems : List Tree → List Tree
  | [] => []
  | item :: rest => item.written :: writtenItems rest

def writtenEntries : List (String × Tree) → List (String × Tree)
  | [] => []
  | (name, value) :: rest => (name, value.written) :: writtenEntries rest

end

@[simp] theorem written_null : null.written = null := by rw [written]

@[simp] theorem written_natural (n : Nat) : (natural n).written = natural n := by rw [written]

@[simp] theorem written_text (s : String) : (text s).written = text s := by rw [written]

@[simp] theorem written_list (items : List Tree) :
    (list items).written = list (items.map written) := by
  have each : writtenItems items = items.map written := by
    induction items with
    | nil => rw [writtenItems, List.map_nil]
    | cons item rest ih => rw [writtenItems, ih, List.map_cons]
  rw [written, each]

@[simp] theorem written_table (entries : List (String × Tree)) :
    (table entries).written = table (entries.map fun entry => (entry.1, entry.2.written)) := by
  have each : writtenEntries entries = entries.map fun entry => (entry.1, entry.2.written) := by
    induction entries with
    | nil => rw [writtenEntries, List.map_nil]
    | cons entry rest ih => rw [writtenEntries, ih, List.map_cons]
  rw [written, each]

end Tree

namespace Json

/-- The characters of pieces that are joined together. -/
def chars (pieces : List String) : List Char := pieces.flatMap String.toList

@[simp] theorem chars_nil : chars [] = [] := rfl

@[simp] theorem chars_cons (piece : String) (rest : List String) :
    chars (piece :: rest) = piece.toList ++ chars rest := rfl

@[simp] theorem chars_append (a b : List String) : chars (a ++ b) = chars a ++ chars b :=
  List.flatMap_append

/-! ## Texts -/

/-- A character as it is written inside a text. -/
def writtenChar (c : Char) : List Char :=
  match escape? c with
  | some e => e.toList
  | none => [c]

theorem chars_plainPiece (run : List Char) : chars (plainPiece run) = run.reverse := by
  cases run with
  | nil => rfl
  | cons c rest => simp [plainPiece]

theorem chars_textPieces (run cs : List Char) :
    chars (textPieces run cs) = run.reverse ++ cs.flatMap writtenChar := by
  induction cs generalizing run with
  | nil => simp [textPieces, chars_plainPiece]
  | cons c rest ih =>
      rw [textPieces, List.flatMap_cons, writtenChar]
      cases escape? c with
      | some e => simp [chars_plainPiece, ih]
      | none => simp [ih]

theorem hexUnit?_hexDigit (n : Nat) (small : n < 0x20) :
    hexUnit? '0' '0' (hexDigit (n / 16)) (hexDigit (n % 16)) = some n := by
  revert n
  decide

/-- A unit below the surrogates is a character by itself, whatever follows. -/
theorem assemble?_unit (n : Nat) (small : n < 0x20) (units : List TextUnit) :
    assemble? (.unit n :: units) = (assemble? units).map (Char.ofNat n :: ·) := by
  have low : isHighSurrogate n = false ∧ isLowSurrogate n = false := by
    simp only [isHighSurrogate, isLowSurrogate, Bool.and_eq_false_iff, decide_eq_false_iff_not]
    omega
  cases units with
  | nil => simp [assemble?, low]
  | cons unit rest => cases unit <;> simp [assemble?, low]

theorem escape?_eq_none {c : Char} (plain : escape? c = none) :
    c ≠ '"' ∧ c ≠ '\\' ∧ 0x20 ≤ c.toNat := by
  unfold escape? at plain
  split at plain
  case h_8 =>
    split at plain
    · cases plain
    · refine ⟨by assumption, by assumption, by omega⟩
  all_goals cases plain

/-- A character is written as units that denote it. -/
theorem exists_units_of_char (c : Char) {units : List TextUnit} {cs : List Char}
    (spelled : UnitsSpelled units cs) : ∃ more, UnitsSpelled more (writtenChar c ++ cs) ∧
      assemble? more = (assemble? units).map (c :: ·) := by
  have short : ∀ letter, escapedChar? letter = some c → writtenChar c = ['\\', letter] →
      ∃ more, UnitsSpelled more (writtenChar c ++ cs) ∧
        assemble? more = (assemble? units).map (c :: ·) := by
    intro letter stands as
    rw [as]
    exact ⟨_, .escaped stands spelled, by rw [assemble?]⟩
  cases escaped : escape? c with
  | none =>
      obtain ⟨no_quote, no_escape, visible⟩ := escape?_eq_none escaped
      rw [writtenChar, escaped]
      exact ⟨_, .plain no_quote no_escape visible spelled, by rw [assemble?]⟩
  | some e =>
      have given := escaped
      unfold escape? at given
      split at given
      case h_8 =>
        split at given
        next small =>
          cases given
          refine ⟨_, ?_, (assemble?_unit c.toNat small units).trans (by rw [Char.ofNat_toNat])⟩
          have written : writtenChar c =
              ['\\', 'u', '0', '0', hexDigit (c.toNat / 16), hexDigit (c.toNat % 16)] := by
            rw [writtenChar, escaped]
            simp
          rw [written]
          exact .hex (hexUnit?_hexDigit _ small) spelled
        next => cases given
      case h_1 => exact short '"' rfl rfl
      case h_2 => exact short '\\' rfl rfl
      case h_3 => exact short 'b' rfl rfl
      case h_4 => exact short 't' rfl rfl
      case h_5 => exact short 'n' rfl rfl
      case h_6 => exact short 'f' rfl rfl
      case h_7 => exact short 'r' rfl rfl

theorem exists_units (cs : List Char) :
    ∃ units, UnitsSpelled units (cs.flatMap writtenChar) ∧ assemble? units = some cs := by
  induction cs with
  | nil => exact ⟨[], .nil, by rw [assemble?]⟩
  | cons c rest ih =>
      obtain ⟨units, spelled, denotes⟩ := ih
      obtain ⟨more, spelled, extended⟩ := exists_units_of_char c spelled
      exact ⟨more, spelled, by rw [extended, denotes, Option.map_some]⟩

theorem textSpelled_quoted (s : String) : TextSpelled (some s) (chars (quoted s)) := by
  obtain ⟨units, spelled, denotes⟩ := exists_units s.toList
  have written : chars (quoted s) = '"' :: (s.toList.flatMap writtenChar ++ ['"']) := by
    simp [quoted, chars_textPieces]
  have given := TextSpelled.intro spelled
  rw [denotes, Option.map_some, String.ofList_toList] at given
  rw [written]
  exact given

/-! ## Numbers -/

theorem ofDigits_toDigits (n : Nat) : ofDigits (Nat.toDigits 10 n) = n := by
  have same := Nat.ofDigitChars_toDigits (b := 10) (n := n) (by decide) (by decide)
  rw [Nat.ofDigitChars_eq_foldl] at same
  simpa only [ofDigits, Nat.mul_comm] using same

theorem digits_toDigits (n : Nat) : Digits (Nat.toDigits 10 n) :=
  ⟨Nat.toDigits_ne_nil, fun _ => Nat.isDigit_of_mem_toDigits (by decide) (by decide)⟩

/-- Only zero is written with a zero in front. -/
theorem head_toDigits {n : Nat} (positive : 0 < n) : (Nat.toDigits 10 n).head? ≠ some '0' := by
  induction n using Nat.strongRecOn with
  | ind n ih =>
      rw [Nat.toDigits_eq_if (by decide)]
      split
      · simp only [List.head?_cons, ne_eq, Option.some.injEq, Nat.digitChar_eq_zero]
        omega
      · have shorter := ih (n / 10) (by omega) (by omega)
        rcases digits : Nat.toDigits 10 (n / 10) with _ | ⟨c, rest⟩
        · exact absurd digits Nat.toDigits_ne_nil
        · rwa [digits] at shorter

theorem wholeSpelled_toString (n : Nat) : WholeSpelled n (toString n).toList := by
  rw [Nat.toString_eq_ofList_toDigits, String.toList_ofList]
  rcases Nat.eq_zero_or_pos n with rfl | positive
  · exact .zero
  · have spelled := WholeSpelled.digits (digits_toDigits n) (head_toDigits positive)
    rwa [ofDigits_toDigits] at spelled

/-! ## Trees -/

theorem chars_itemPieces_false (item : Tree) (rest : List Tree) :
    chars (itemPieces false (item :: rest)) = ',' :: chars (itemPieces true (item :: rest)) := by
  simp [itemPieces]

theorem chars_entryPieces_false (entry : String × Tree) (rest : List (String × Tree)) :
    chars (entryPieces false (entry :: rest)) = ',' :: chars (entryPieces true (entry :: rest)) := by
  simp [entryPieces]

/-- The names of a table are texts, so that they denote something. -/
theorem ofEntries_map_some (entries : List (String × Tree)) :
    ofEntries (entries.map fun entry => (some entry.1, entry.2)) = .table entries := by
  have all : (entries.map fun entry => (some entry.1, entry.2)).mapM
      (fun entry : Option String × Tree => entry.1.map (·, entry.2)) = some entries := by
    induction entries with
    | nil => rfl
    | cons entry rest ih => simp [ih]
  rw [ofEntries]
  simp [all]

mutual

theorem spelled_pieces : (t : Tree) → Spelled t.written (chars (pieces t))
  | .null | .dateTime | .other => by
      simp only [Tree.written, pieces]
      exact .null
  | .bool true => by
      simp only [Tree.written, pieces]
      exact .isTrue
  | .bool false => by
      simp only [Tree.written, pieces]
      exact .isFalse
  | .natural n => by
      have spelled := Spelled.number .none (wholeSpelled_toString n) .none .none
      simpa [pieces] using spelled
  | .text s => by
      rw [Tree.written_text, pieces]
      exact .text (textSpelled_quoted s)
  | .list items => by
      have spelled := spelled_itemPieces items
      rw [Tree.written_list, pieces]
      cases items with
      | nil => exact .noItems blanks_nil
      | cons item rest => simpa using Spelled.items (spelled (List.cons_ne_nil item rest))
  | .table entries => by
      have spelled := spelled_entryPieces entries
      rw [Tree.written_table, pieces]
      cases entries with
      | nil => exact .noEntries blanks_nil
      | cons entry rest =>
          have whole := Spelled.entries (spelled (List.cons_ne_nil entry rest))
          have named : ofEntries ((entry :: rest).map fun e => (some e.1, e.2.written)) =
              .table ((entry :: rest).map fun e => (e.1, e.2.written)) := by
            simpa [Function.comp_def] using
              ofEntries_map_some ((entry :: rest).map fun e => (e.1, e.2.written))
          rw [named] at whole
          simpa using whole

theorem spelled_itemPieces : (items : List Tree) → items ≠ [] →
    ItemsSpelled (items.map Tree.written) (chars (itemPieces true items))
  | [], some_item => absurd rfl some_item
  | item :: rest, _ => by
      have first := spelled_pieces item
      have others := spelled_itemPieces rest
      cases rest with
      | nil =>
          have spelled := ItemsSpelled.one blanks_nil first blanks_nil
          simpa [itemPieces] using spelled
      | cons next rest =>
          have spelled := ItemsSpelled.cons blanks_nil first blanks_nil
            (others (List.cons_ne_nil next rest))
          rw [itemPieces]
          simpa [chars_itemPieces_false] using spelled

theorem spelled_entryPieces : (entries : List (String × Tree)) → entries ≠ [] →
    EntriesSpelled (entries.map fun entry => (some entry.1, entry.2.written))
      (chars (entryPieces true entries))
  | [], some_entry => absurd rfl some_entry
  | (name, value) :: rest, _ => by
      have first := spelled_pieces value
      have others := spelled_entryPieces rest
      cases rest with
      | nil =>
          have spelled := EntriesSpelled.one blanks_nil (textSpelled_quoted name) blanks_nil
            blanks_nil first blanks_nil
          simpa [entryPieces] using spelled
      | cons next rest =>
          have spelled := EntriesSpelled.cons blanks_nil (textSpelled_quoted name) blanks_nil
            blanks_nil first blanks_nil (others (List.cons_ne_nil next rest))
          rw [entryPieces]
          simpa [chars_entryPieces_false] using spelled

end

theorem toList_render (t : Tree) : (render t).toList = chars (pieces t) := by
  rw [render, String.toList_join]
  rfl

/-- Every tree is read back from its text, as far as it can be written. -/
theorem treeSpelled_render (t : Tree) : TreeSpelled t.written (render t) := by
  refine ⟨[], _, [], blanks_nil, spelled_pieces t, blanks_nil, ?_⟩
  rw [toList_render, List.nil_append, List.append_nil]

theorem parse?_render (t : Tree) : parse? (render t) = some t.written :=
  parse?_of_spelled (treeSpelled_render t)

/-! ## One line

No character of a text is a control character below U+0020. -/

def Visible (cs : List Char) : Prop := ∀ c ∈ cs, 0x20 ≤ c.toNat

@[simp] theorem visible_nil : Visible [] := by simp [Visible]

@[simp] theorem visible_cons {c : Char} {cs : List Char} :
    Visible (c :: cs) ↔ 0x20 ≤ c.toNat ∧ Visible cs := by simp [Visible]

@[simp] theorem visible_append {a b : List Char} : Visible (a ++ b) ↔ Visible a ∧ Visible b := by
  simp only [Visible, List.mem_append, or_imp, forall_and]

theorem visible_writtenChar (c : Char) : Visible (writtenChar c) := by
  have digit : ∀ n < 0x10, 0x20 ≤ (hexDigit n).toNat := by decide
  unfold writtenChar
  cases escaped : escape? c with
  | none => simp [(escape?_eq_none escaped).2.2]
  | some e =>
      unfold escape? at escaped
      split at escaped
      case h_8 =>
        split at escaped
        next small =>
          cases escaped
          simp [digit (c.toNat / 16) (by omega), digit (c.toNat % 16) (by omega)]
        next => cases escaped
      all_goals
        cases escaped
        simp

theorem visible_quoted (s : String) : Visible (chars (quoted s)) := by
  have inside : Visible (s.toList.flatMap writtenChar) := by
    intro c member
    obtain ⟨d, -, written⟩ := List.mem_flatMap.mp member
    exact visible_writtenChar d c written
  simpa [quoted, chars_textPieces] using inside

theorem visible_toString (n : Nat) : Visible (toString n).toList := by
  intro c member
  rw [Nat.toString_eq_ofList_toDigits, String.toList_ofList] at member
  have digit := (digits_toDigits n).2 c member
  simp only [Char.isDigit, Bool.and_eq_true, decide_eq_true_eq] at digit
  have low : '0'.toNat ≤ c.toNat := digit.1
  exact Nat.le_trans (by decide) low

mutual

theorem visible_pieces : (t : Tree) → Visible (chars (pieces t))
  | .null | .dateTime | .other | .bool true | .bool false => by simp [pieces]
  | .natural n => by simpa [pieces] using visible_toString n
  | .text s => by simpa [pieces] using visible_quoted s
  | .list items => by simpa [pieces] using visible_itemPieces true items
  | .table entries => by simpa [pieces] using visible_entryPieces true entries

theorem visible_itemPieces (first : Bool) : (items : List Tree) →
    Visible (chars (itemPieces first items))
  | [] => by simp [itemPieces]
  | item :: rest => by
      have value := visible_pieces item
      have others := visible_itemPieces false rest
      cases first <;> simp [itemPieces, value, others]

theorem visible_entryPieces (first : Bool) : (entries : List (String × Tree)) →
    Visible (chars (entryPieces first entries))
  | [] => by simp [entryPieces]
  | (name, value) :: rest => by
      have here := visible_pieces value
      have others := visible_entryPieces false rest
      cases first <;> simp [entryPieces, visible_quoted, here, others]

end

/-- The text of a tree is one line. -/
theorem newline_not_mem_render (t : Tree) : '\n' ∉ (render t).toList := by
  rw [toList_render]
  exact fun member => absurd (visible_pieces t '\n' member) (by decide)

end Json

end Accelerator
