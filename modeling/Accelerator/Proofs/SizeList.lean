import Accelerator.Proofs.SizeList.Number
import Accelerator.Proofs.Text.Blank
import Accelerator.Proofs.Text.Quoted
import Accelerator.Proofs.Traversal

/-!
# Which texts are lists of sizes

A size is a number below 2^32 with white space around it (`SizeList.SizeSpelled`), and a text is cut at its
commas. With one to three pieces that are all sizes it gives extents. Else the first piece that is no size
is reported, and only where there is none that there are too many (`SizeList.parse_follows_grammar`). Each
report is about one piece and one reason, and its text tells which (`SizeListError.message_injective`).
-/

namespace Accelerator

/-! ## Reports -/

theorem NumberError.message_injective : Function.Injective NumberError.message := by
  intro e e' same
  cases e <;> cases e' <;> revert same <;> decide

namespace SizeListError

theorem message_notNumber (piece : String) (reason : NumberError) :
    (notNumber piece reason).message =
      String.ofList (Quoted.encode piece.toList) ++ (": " ++ reason.message) :=
  String.append_assoc

theorem message_tooMany (count : Nat) : (tooMany count).message =
    "expected 1 to 3 comma-separated sizes, got " ++ toString count := rfl

theorem eq_of_message_tooMany {n m : Nat} (same : (tooMany n).message = (tooMany m).message) :
    n = m := by
  rw [message_tooMany, message_tooMany, String.append_right_inj, Nat.toString_eq_ofList_toDigits,
    Nat.toString_eq_ofList_toDigits, String.ofList_inj] at same
  calc
    n = Nat.ofDigitChars 10 (Nat.toDigits 10 n) 0 := Nat.ofDigitChars_ten_toDigits.symm
    _ = Nat.ofDigitChars 10 (Nat.toDigits 10 m) 0 := by rw [same]
    _ = m := Nat.ofDigitChars_ten_toDigits

theorem message_notNumber_ne (piece : String) (reason : NumberError) (count : Nat) :
    (notNumber piece reason).message ≠ (tooMany count).message := by
  intro same
  have letter : "expected 1 to 3 comma-separated sizes, got ".toList.head? = some 'e' := by decide
  have first := congrArg (fun text => text.toList.head?) same
  simp only [message_notNumber, message_tooMany, String.toList_append, String.toList_ofList,
    List.head?_append, letter] at first
  cases first

/-- The text of a report tells which piece it is about and what is wrong with it, or how many pieces there
are. -/
theorem message_injective : Function.Injective message := by
  intro e e' same
  cases e with
  | notNumber piece reason =>
      cases e' with
      | notNumber piece' reason' =>
          have chars := congrArg String.toList same
          simp only [message_notNumber, String.toList_append, String.toList_ofList] at chars
          obtain ⟨pieces, rest⟩ := Quoted.encode_append_inj chars
          have reasons := String.toList_inj.mp (List.append_cancel_left rest)
          rw [String.toList_inj.mp pieces, NumberError.message_injective reasons]
      | tooMany count => exact absurd same (message_notNumber_ne piece reason count)
  | tooMany count =>
      cases e' with
      | notNumber piece reason => exact absurd same.symm (message_notNumber_ne piece reason count)
      | tooMany count' => rw [eq_of_message_tooMany same]

end SizeListError

namespace SizeList

/-! ## Pieces -/

/-- A size is a number below 2^32 with white space around it. -/
def SizeSpelled (n : Nat) (piece : List Char) : Prop :=
  ∃ core, TrimsTo piece core ∧ NumberSpelled n core ∧ n < countBound

/-- What is wrong with a piece that is no size. -/
def Faulty (piece : List Char) (reason : NumberError) : Prop :=
  ∃ core, TrimsTo piece core ∧ IsWrong countBound core reason

/-- The pieces of a text have no comma in them, and with commas between them they are the text. -/
structure Cut (text : List Char) (ps : List (List Char)) : Prop where
  joined : [','].intercalate ps = text
  whole : ∀ p ∈ ps, ',' ∉ p
  present : ps ≠ []

theorem comma_notMem_of_mem_pieces (text : List Char) : ∀ p ∈ pieces text, ',' ∉ p := by
  induction text with
  | nil => simp [pieces]
  | cons c text ih =>
      rw [pieces, List.splitOn_cons_eq_if_modifyHead]
      split
      next => exact List.forall_mem_cons.mpr ⟨List.not_mem_nil, ih⟩
      next other =>
        rw [pieces] at ih
        rcases cut : List.splitOn ',' text with _ | ⟨p, ps⟩
        · exact absurd cut (List.splitOn_ne_nil _ _)
        · rw [cut] at ih
          obtain ⟨first, rest⟩ := List.forall_mem_cons.mp ih
          refine List.forall_mem_cons.mpr ⟨List.not_mem_cons_of_ne_of_not_mem ?_ first, rest⟩
          rintro rfl
          exact other (beq_self_eq_true _)

theorem cut_iff {text : List Char} {ps : List (List Char)} : Cut text ps ↔ pieces text = ps := by
  constructor
  · rintro ⟨rfl, whole, present⟩
    exact List.splitOn_intercalate ',' whole present
  · rintro rfl
    exact ⟨List.intercalate_splitOn ',', comma_notMem_of_mem_pieces text, List.splitOn_ne_nil _ _⟩

variable {piece : List Char} {n : Nat}

theorem readPiece_eq_ok : readPiece piece = .ok n ↔ SizeSpelled n piece := by
  have reads : readPiece piece = .ok n ↔ readNatural countBound (trim piece) = .ok n := by
    unfold readPiece
    rcases readNatural countBound (trim piece) with e | m
    · exact ⟨nofun, nofun⟩
    · exact ⟨fun read => (by cases read; rfl), fun read => (by cases read; rfl)⟩
  rw [reads, readNatural_eq_ok (by decide)]
  simp only [SizeSpelled, trimsTo_iff, exists_eq_left']

theorem readPiece_eq_error {e : SizeListError} : readPiece piece = .error e ↔
    ∃ reason, e = .notNumber (String.ofList piece) reason ∧ Faulty piece reason := by
  have reads : readPiece piece = .error e ↔ ∃ reason,
      e = .notNumber (String.ofList piece) reason ∧
        readNatural countBound (trim piece) = .error reason := by
    unfold readPiece
    rcases readNatural countBound (trim piece) with reason | m
    · constructor
      · intro read
        cases read
        exact ⟨reason, rfl, rfl⟩
      · rintro ⟨_, rfl, same⟩
        cases same
        rfl
    · refine ⟨nofun, ?_⟩
      rintro ⟨_, -, read⟩
      cases read
  simp only [reads, readNatural_eq_error (by decide : 0 < countBound), Faulty, trimsTo_iff,
    exists_eq_left']

/-- A piece with a fault is no size. -/
theorem Faulty.not_sizeSpelled {reason : NumberError} (faulty : Faulty piece reason) (n : Nat) :
    ¬SizeSpelled n piece := by
  intro spelled
  have read := readPiece_eq_error.mpr ⟨reason, rfl, faulty⟩
  rw [readPiece_eq_ok.mpr spelled] at read
  cases read

theorem sizeSpelled_decimal {left right : List Char} (blank : IsBlank left) (blank' : IsBlank right)
    (small : n < countBound) : SizeSpelled n (left ++ (toString n).toList ++ right) := by
  have all : IsDigits (Nat.toDigits 10 n) :=
    fun _ => Nat.isDigit_of_mem_toDigits (by decide) (by decide)
  rw [Nat.toString_eq_ofList_toDigits, String.toList_ofList]
  refine ⟨Nat.toDigits 10 n, ⟨⟨left, right, blank, blank', rfl⟩, fun c head => ?_, fun c last => ?_⟩,
    ⟨[], _, rfl, .inl rfl, Nat.toDigits_ne_nil, all, Nat.ofDigitChars_ten_toDigits⟩, small⟩
  · exact isWhiteSpace_of_isDigit (all c (List.mem_of_head? head))
  · exact isWhiteSpace_of_isDigit (all c (List.mem_of_getLast? last))

theorem comma_notMem_decimal {left right : List Char} (blank : IsBlank left)
    (blank' : IsBlank right) (n : Nat) : ',' ∉ left ++ (toString n).toList ++ right := by
  rw [Nat.toString_eq_ofList_toDigits, String.toList_ofList, List.mem_append, List.mem_append]
  rintro ((member | member) | member)
  · exact absurd (blank _ member) (by decide)
  · exact absurd (Nat.isDigit_of_mem_toDigits (by decide) (by decide) member) (by decide)
  · exact absurd (blank' _ member) (by decide)

/-! ## Lists of sizes -/

variable {text : String} {sizes : List Nat}

theorem mapM_readPiece_eq_ok {ps : List (List Char)} :
    ps.mapM readPiece = .ok sizes ↔ List.Forall₂ SizeSpelled sizes ps := by
  have same : (fun piece n => readPiece piece = .ok n) = flip SizeSpelled :=
    funext fun _ => funext fun _ => propext readPiece_eq_ok
  rw [mapM_eq_ok, same]
  exact ⟨List.Forall₂.flip, List.Forall₂.flip⟩

theorem exists_mapM_readPiece_eq_ok {ps : List (List Char)} :
    (∃ sizes, ps.mapM readPiece = .ok sizes) ↔ ∀ p ∈ ps, ∃ n, SizeSpelled n p := by
  simp only [exists_mapM_eq_ok, readPiece_eq_ok]

/-- The error is that of the first piece that is no size. -/
theorem mapM_readPiece_eq_error {ps : List (List Char)} {e : SizeListError} :
    ps.mapM readPiece = .error e ↔ ∃ before bad after reason, ps = before ++ bad :: after ∧
      (∀ p ∈ before, ∃ n, SizeSpelled n p) ∧ Faulty bad reason ∧
      e = .notNumber (String.ofList bad) reason := by
  simp only [mapM_eq_error, readPiece_eq_ok, readPiece_eq_error]
  constructor
  · rintro ⟨before, bad, after, same, each, reason, rfl, faulty⟩
    exact ⟨before, bad, after, reason, same, each, faulty, rfl⟩
  · rintro ⟨before, bad, after, reason, same, each, faulty, rfl⟩
    exact ⟨before, bad, after, same, each, reason, rfl, faulty⟩

/-- Up to three sizes are extents. -/
def extents : List Nat → Except SizeListError Dim3
  | [x] => .ok ⟨x, 1, 1⟩
  | [x, y] => .ok ⟨x, y, 1⟩
  | [x, y, z] => .ok ⟨x, y, z⟩
  | sizes => .error (.tooMany sizes.length)

theorem parse_eq (text : String) :
    parse text = (pieces text.toList).mapM readPiece >>= extents := rfl

/-- The extents that are left out are 1. -/
theorem extents_eq_ok (present : sizes ≠ []) {d : Dim3} : extents sizes = .ok d ↔
    sizes.length ≤ 3 ∧ d.toList = sizes ++ List.replicate (3 - sizes.length) 1 := by
  obtain ⟨x, y, z⟩ := d
  match sizes with
  | [] => exact absurd rfl present
  | [_] | [_, _] | [_, _, _] => simp [extents, Dim3.toList, eq_comm]
  | _ :: _ :: _ :: _ :: _ => simp [extents]

theorem extents_eq_error (present : sizes ≠ []) {e : SizeListError} :
    extents sizes = .error e ↔ 3 < sizes.length ∧ e = .tooMany sizes.length := by
  match sizes with
  | [] => exact absurd rfl present
  | [_] | [_, _] | [_, _, _] => simp [extents]
  | _ :: _ :: _ :: _ :: _ => simp [extents, eq_comm]

theorem ne_nil_of_mapM_readPiece (read : (pieces text.toList).mapM readPiece = .ok sizes) :
    sizes ≠ [] := by
  -- Even the empty text has a piece.
  rintro rfl
  have none := (mapM_readPiece_eq_ok.mp read).length_eq
  exact List.splitOn_ne_nil _ _ (List.length_eq_zero_iff.mp none.symm)

theorem parse_eq_ok {d : Dim3} : parse text = .ok d ↔
    ∃ ps sizes, Cut text.toList ps ∧ ps.length ≤ 3 ∧ List.Forall₂ SizeSpelled sizes ps ∧
      d.toList = sizes ++ List.replicate (3 - sizes.length) 1 := by
  rw [parse_eq, bind_eq_ok]
  constructor
  · rintro ⟨sizes, read, done⟩
    have spelled := mapM_readPiece_eq_ok.mp read
    obtain ⟨few, filled⟩ := (extents_eq_ok (ne_nil_of_mapM_readPiece read)).mp done
    exact ⟨_, sizes, cut_iff.mpr rfl, spelled.length_eq ▸ few, spelled, filled⟩
  · rintro ⟨ps, sizes, cut, few, spelled, filled⟩
    obtain rfl := cut_iff.mp cut
    have read := mapM_readPiece_eq_ok.mpr spelled
    have done := (extents_eq_ok (ne_nil_of_mapM_readPiece read)).mpr
      ⟨spelled.length_eq ▸ few, filled⟩
    exact ⟨sizes, read, done⟩

/-- What is reported of a piece is what is wrong with the first piece that is no size. -/
theorem parse_eq_notNumber {piece : String} {reason : NumberError} :
    parse text = .error (.notNumber piece reason) ↔
      ∃ before bad after, Cut text.toList (before ++ bad :: after) ∧
        (∀ p ∈ before, ∃ n, SizeSpelled n p) ∧ (∀ n, ¬SizeSpelled n bad) ∧
        Faulty bad reason ∧ piece = String.ofList bad := by
  rw [parse_eq, bind_eq_error, mapM_readPiece_eq_error]
  constructor
  · rintro (⟨before, bad, after, _, same, each, faulty, reported⟩ | ⟨sizes, read, failed⟩)
    · cases reported
      exact ⟨before, bad, after, cut_iff.mpr same, each, faulty.not_sizeSpelled, faulty, rfl⟩
    · obtain ⟨-, reported⟩ := (extents_eq_error (ne_nil_of_mapM_readPiece read)).mp failed
      cases reported
  · rintro ⟨before, bad, after, cut, each, -, faulty, rfl⟩
    exact .inl ⟨before, bad, after, reason, cut_iff.mp cut, each, faulty, rfl⟩

/-- There are too many pieces only where each of them is a size. -/
theorem parse_eq_tooMany {count : Nat} :
    parse text = .error (.tooMany count) ↔
      ∃ ps, Cut text.toList ps ∧ (∀ p ∈ ps, ∃ n, SizeSpelled n p) ∧ 3 < ps.length ∧
        count = ps.length := by
  rw [parse_eq, bind_eq_error, mapM_readPiece_eq_error]
  constructor
  · rintro (⟨_, _, _, _, -, -, -, reported⟩ | ⟨sizes, read, failed⟩)
    · cases reported
    · obtain ⟨many, reported⟩ := (extents_eq_error (ne_nil_of_mapM_readPiece read)).mp failed
      have length := (mapM_readPiece_eq_ok.mp read).length_eq
      cases reported
      exact ⟨_, cut_iff.mpr rfl, exists_mapM_readPiece_eq_ok.mp ⟨sizes, read⟩, length ▸ many, length⟩
  · rintro ⟨ps, cut, each, many, rfl⟩
    obtain rfl := cut_iff.mp cut
    obtain ⟨sizes, read⟩ := exists_mapM_readPiece_eq_ok.mpr each
    have length := (mapM_readPiece_eq_ok.mp read).length_eq
    have failed := (extents_eq_error (ne_nil_of_mapM_readPiece read)).mpr ⟨length ▸ many, rfl⟩
    exact .inr ⟨sizes, read, length ▸ failed⟩

/-- Three sizes in decimal are read back, whatever white space is around them. -/
theorem parse_decimal {d : Dim3} {p q r s t u : String} (first : d.x < countBound)
    (second : d.y < countBound) (third : d.z < countBound)
    (blank : ∀ w ∈ [p, q, r, s, t, u], IsBlank w.toList) :
    parse s!"{p}{d.x}{q},{r}{d.y}{s},{t}{d.z}{u}" = .ok d := by
  simp only [List.forall_mem_cons] at blank
  obtain ⟨blank_p, blank_q, blank_r, blank_s, blank_t, blank_u, -⟩ := blank
  refine parse_eq_ok.mpr ⟨[p.toList ++ (toString d.x).toList ++ q.toList,
    r.toList ++ (toString d.y).toList ++ s.toList, t.toList ++ (toString d.z).toList ++ u.toList],
    d.toList, ⟨?_, ?_, List.cons_ne_nil _ _⟩, Nat.le_refl 3, ?_, rfl⟩
  · have comma : ",".toList = [','] := by decide
    have plain (w : String) : toString w = w := rfl
    simp [plain, comma]
  · rw [List.forall_mem_cons, List.forall_mem_cons, List.forall_mem_singleton]
    exact ⟨comma_notMem_decimal blank_p blank_q d.x, comma_notMem_decimal blank_r blank_s d.y,
      comma_notMem_decimal blank_t blank_u d.z⟩
  · exact .cons (sizeSpelled_decimal blank_p blank_q first)
      (.cons (sizeSpelled_decimal blank_r blank_s second)
        (.cons (sizeSpelled_decimal blank_t blank_u third) .nil))

/-- A text gives extents if and only if it is cut into one to three pieces that are sizes: the sizes in
order, and 1 where none is given. Else the first piece that is no size is reported, however many there
are, or, where every piece is a size, that there are more than three. The text of a report tells what is
reported. So extents in decimal are read back from any text that has white space around them. -/
theorem parse_follows_grammar :
    (∀ (text : String) (d : Dim3), parse text = .ok d ↔
      ∃ ps sizes, Cut text.toList ps ∧ ps.length ≤ 3 ∧ List.Forall₂ SizeSpelled sizes ps ∧
        d.toList = sizes ++ List.replicate (3 - sizes.length) 1) ∧
    (∀ (text piece : String) (reason : NumberError), parse text = .error (.notNumber piece reason) ↔
      ∃ before bad after, Cut text.toList (before ++ bad :: after) ∧
        (∀ p ∈ before, ∃ n, SizeSpelled n p) ∧ (∀ n, ¬SizeSpelled n bad) ∧
        Faulty bad reason ∧ piece = String.ofList bad) ∧
    (∀ (text : String) (count : Nat), parse text = .error (.tooMany count) ↔
      ∃ ps, Cut text.toList ps ∧ (∀ p ∈ ps, ∃ n, SizeSpelled n p) ∧ 3 < ps.length ∧
        count = ps.length) ∧
    Function.Injective SizeListError.message ∧
    ∀ (d : Dim3) (p q r s t u : String), d.x < countBound → d.y < countBound →
      d.z < countBound → (∀ w ∈ [p, q, r, s, t, u], IsBlank w.toList) →
      parse s!"{p}{d.x}{q},{r}{d.y}{s},{t}{d.z}{u}" = .ok d :=
  ⟨fun _ _ => parse_eq_ok, fun _ _ _ => parse_eq_notNumber, fun _ _ => parse_eq_tooMany,
    SizeListError.message_injective, fun _ _ _ _ _ _ _ => parse_decimal⟩

/-- The largest size, zero and a size of two digits, with white space of several kinds. -/
theorem parse_follows_grammar_for_largest_size :
    parse "  4294967295\t,0,\u300064\n" = .ok ⟨4294967295, 0, 64⟩ := by
  obtain ⟨-, -, -, -, written⟩ := parse_follows_grammar
  have blank : ∀ w ∈ ["  ", "\t", "", "", "\u3000", "\n"], IsBlank w.toList := by decide
  exact written ⟨4294967295, 0, 64⟩ "  " "\t" "" "" "\u3000" "\n" (by decide) (by decide)
    (by decide) blank

/-- A number that is too large is reported before the letter that follows, and before the pieces after
it. -/
example : parse "+007, 4294967296x,,9" = .error (.notNumber " 4294967296x" .tooLarge) := by
  decide +kernel

end SizeList

end Accelerator
