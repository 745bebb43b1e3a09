import Accelerator.SizeList
import Mathlib.Data.List.Basic

/-!
# Which texts are numbers

A number is at least one digit, with a plus sign in front or without (`NumberSpelled`). A text is read as a
number below a bound if and only if it is one (`readNatural_eq_ok`), and else it is refused for what is
wrong with it (`readNatural_eq_error`). The digits are judged from left to right, so that what comes first
decides: a number that has become too large stays so, whatever follows.
-/

namespace Accelerator

/-! ## Digits -/

/-- Digits from `0` to `9` alone. -/
def IsDigits (cs : List Char) : Prop := ∀ c ∈ cs, c.isDigit = true

theorem isDigits_cons {c : Char} {cs : List Char} :
    IsDigits (c :: cs) ↔ c.isDigit = true ∧ IsDigits cs := List.forall_mem_cons

/-- More digits do not make a number smaller. -/
theorem le_ofDigitChars (n : Nat) (cs : List Char) : n ≤ Nat.ofDigitChars 10 cs n := by
  induction cs generalizing n with
  | nil => exact Nat.le_refl n
  | cons c cs ih =>
      rw [Nat.ofDigitChars_cons]
      exact Nat.le_trans (by omega) (ih _)

section Reading

variable {bound n m : Nat} {cs : List Char}

theorem readDigits_cons_of_isDigit {c : Char} (digit : c.isDigit = true) :
    readDigits bound n (c :: cs) =
      if 10 * n + (c.toNat - '0'.toNat) < bound then
        readDigits bound (10 * n + (c.toNat - '0'.toNat)) cs
      else .error .tooLarge := by
  rw [readDigits, if_pos digit, Nat.mul_comm]

theorem readDigits_cons_of_not_isDigit {c : Char} (other : c.isDigit ≠ true) :
    readDigits bound n (c :: cs) = .error .invalidDigit := by
  rw [readDigits, if_neg other]

theorem readDigits_eq_ok (small : n < bound) :
    readDigits bound n cs = .ok m ↔ IsDigits cs ∧ Nat.ofDigitChars 10 cs n = m ∧ m < bound := by
  induction cs generalizing n with
  | nil =>
      refine ⟨fun read => ?_, fun given => congrArg _ given.2.1⟩
      cases read
      exact ⟨List.forall_mem_nil _, rfl, small⟩
  | cons c cs ih =>
      rw [isDigits_cons]
      by_cases digit : c.isDigit = true
      · rw [readDigits_cons_of_isDigit digit, Nat.ofDigitChars_cons]
        split
        next within => rw [ih within, and_assoc, and_iff_right digit]
        next past =>
          refine ⟨fun read => (by cases read), ?_⟩
          -- The bound is passed for good: what follows can only add to the number.
          rintro ⟨-, value, within⟩
          have grown := le_ofDigitChars (10 * n + (c.toNat - '0'.toNat)) cs
          omega
      · rw [readDigits_cons_of_not_isDigit digit]
        exact ⟨fun read => (by cases read), fun given => absurd given.1.1 digit⟩

/-- A number is too large as soon as the digits up to some place are, whatever follows them. -/
theorem readDigits_eq_tooLarge (small : n < bound) :
    readDigits bound n cs = .error .tooLarge ↔
      ∃ digits rest, cs = digits ++ rest ∧ IsDigits digits ∧
        bound ≤ Nat.ofDigitChars 10 digits n := by
  induction cs generalizing n with
  | nil =>
      refine ⟨fun read => (by cases read), ?_⟩
      rintro ⟨digits, rest, none, -, large⟩
      obtain ⟨rfl, rfl⟩ := List.append_eq_nil_iff.mp none.symm
      exact absurd small (Nat.not_lt.mpr large)
  | cons c cs ih =>
      by_cases digit : c.isDigit = true
      · rw [readDigits_cons_of_isDigit digit]
        split
        next within =>
          rw [ih within]
          constructor
          · rintro ⟨digits, rest, rfl, all, large⟩
            exact ⟨c :: digits, rest, rfl, isDigits_cons.mpr ⟨digit, all⟩, large⟩
          · rintro ⟨_ | ⟨d, digits⟩, rest, same, all, large⟩
            · exact absurd small (Nat.not_lt.mpr large)
            · obtain ⟨rfl, rfl⟩ := List.cons.inj same
              exact ⟨digits, rest, rfl, (isDigits_cons.mp all).2, large⟩
        next past =>
          exact ⟨fun _ => ⟨[c], cs, rfl, isDigits_cons.mpr ⟨digit, List.forall_mem_nil _⟩,
            Nat.not_lt.mp past⟩, fun _ => rfl⟩
      · rw [readDigits_cons_of_not_isDigit digit]
        refine ⟨fun read => (by cases read), ?_⟩
        rintro ⟨_ | ⟨d, digits⟩, rest, same, all, large⟩
        · exact absurd small (Nat.not_lt.mpr large)
        · obtain ⟨rfl, rfl⟩ := List.cons.inj same
          exact absurd (isDigits_cons.mp all).1 digit

theorem readDigits_ne_empty : readDigits bound n cs ≠ .error .empty := by
  fun_induction readDigits bound n cs with
  | case1 => exact nofun
  | case2 _ _ _ _ _ _ ih => exact ih
  | case3 => exact nofun
  | case4 => exact nofun

end Reading

/-! ## Numbers -/

/-- A plus sign or nothing. -/
def IsSign (cs : List Char) : Prop := cs = [] ∨ cs = ['+']

/-- A number is a sign or none and at least one digit. There can be zeros in front. -/
def NumberSpelled (n : Nat) (cs : List Char) : Prop :=
  ∃ sign digits, cs = sign ++ digits ∧ IsSign sign ∧ digits ≠ [] ∧ IsDigits digits ∧
    Nat.ofDigitChars 10 digits 0 = n

/-- After a sign or none, the digits up to some place make a number that is too large. -/
def StartsTooLarge (bound : Nat) (cs : List Char) : Prop :=
  ∃ sign digits rest, cs = sign ++ digits ++ rest ∧ IsSign sign ∧ IsDigits digits ∧
    bound ≤ Nat.ofDigitChars 10 digits 0

/-- What is wrong with a text that is no number below `bound`. The digits are judged from left to
right, so that a number that has become too large stays so, whatever follows. -/
def IsWrong (bound : Nat) (cs : List Char) : NumberError → Prop
  | .empty => cs = []
  | .tooLarge => StartsTooLarge bound cs
  | .invalidDigit => cs ≠ [] ∧ ¬StartsTooLarge bound cs ∧ ∀ n, ¬NumberSpelled n cs

/-- A text without the plus sign in front of it. No digit is a sign, so the digits of a number come right
after the sign if there is one, and first if there is none. -/
def unsigned : List Char → List Char
  | '+' :: cs => cs
  | cs => cs

theorem exists_sign (cs : List Char) : ∃ sign, cs = sign ++ unsigned cs ∧ IsSign sign := by
  unfold unsigned
  split
  · exact ⟨['+'], rfl, .inr rfl⟩
  · exact ⟨[], rfl, .inl rfl⟩

theorem unsigned_append {sign digits : List Char} (signed : IsSign sign) (all : IsDigits digits)
    (some : digits ≠ []) (rest : List Char) : unsigned (sign ++ digits ++ rest) = digits ++ rest := by
  rcases signed with rfl | rfl
  · rw [List.nil_append]
    unfold unsigned
    split
    next same =>
      rcases digits with _ | ⟨c, digits⟩
      · exact absurd rfl some
      · obtain ⟨rfl, -⟩ := List.cons.inj same
        exact absurd (isDigits_cons.mp all).1 (by decide)
    next => rfl
  · rfl

section Reading

variable {bound n : Nat} {cs : List Char}

theorem numberSpelled_iff : NumberSpelled n cs ↔
    unsigned cs ≠ [] ∧ IsDigits (unsigned cs) ∧ Nat.ofDigitChars 10 (unsigned cs) 0 = n := by
  constructor
  · rintro ⟨sign, digits, rfl, signed, some, all, value⟩
    have rest := unsigned_append signed all some []
    rw [List.append_nil, List.append_nil] at rest
    rw [rest]
    exact ⟨some, all, value⟩
  · intro spelled
    obtain ⟨sign, same, signed⟩ := exists_sign cs
    exact ⟨sign, unsigned cs, same, signed, spelled⟩

theorem startsTooLarge_iff (positive : 0 < bound) : StartsTooLarge bound cs ↔
    ∃ digits rest, unsigned cs = digits ++ rest ∧ IsDigits digits ∧
      bound ≤ Nat.ofDigitChars 10 digits 0 := by
  constructor
  · rintro ⟨sign, digits, rest, rfl, signed, all, large⟩
    have some : digits ≠ [] := by
      rintro rfl
      exact absurd positive (Nat.not_lt.mpr large)
    exact ⟨digits, rest, unsigned_append signed all some rest, all, large⟩
  · rintro ⟨digits, rest, same, all, large⟩
    obtain ⟨sign, signs, signed⟩ := exists_sign cs
    exact ⟨sign, digits, rest, by rw [List.append_assoc, ← same, ← signs], signed, all, large⟩

theorem readNatural_eq (present : cs ≠ []) :
    readNatural bound cs =
      if unsigned cs = [] then .error .invalidDigit else readDigits bound 0 (unsigned cs) := by
  unfold readNatural
  split
  next => exact absurd rfl present
  next => rfl
  next digits more =>
    have some : digits ≠ [] := fun none => more none
    exact (if_neg some).symm
  next other =>
    have same : unsigned cs = cs := by
      unfold unsigned
      split
      next => exact (other _ rfl).elim
      next => rfl
    rw [same, if_neg present]

/-- A text is read as a number if and only if it is one, and below the bound. -/
theorem readNatural_eq_ok (positive : 0 < bound) :
    readNatural bound cs = .ok n ↔ NumberSpelled n cs ∧ n < bound := by
  rw [numberSpelled_iff]
  rcases eq_or_ne cs [] with rfl | present
  · exact ⟨fun read => (by cases read), fun given => absurd rfl given.1.1⟩
  · rw [readNatural_eq present]
    split
    next none => exact ⟨fun read => (by cases read), fun given => absurd none given.1.1⟩
    next some => rw [readDigits_eq_ok positive, and_assoc, and_iff_right some, and_assoc]

theorem readNatural_eq_empty : readNatural bound cs = .error .empty ↔ cs = [] := by
  rcases eq_or_ne cs [] with rfl | present
  · exact ⟨fun _ => rfl, fun _ => rfl⟩
  · rw [readNatural_eq present, iff_false_right present]
    split
    · exact nofun
    · exact readDigits_ne_empty

theorem readNatural_eq_tooLarge (positive : 0 < bound) :
    readNatural bound cs = .error .tooLarge ↔ StartsTooLarge bound cs := by
  rw [startsTooLarge_iff positive]
  have nothing (none : unsigned cs = []) : ¬∃ digits rest, unsigned cs = digits ++ rest ∧
      IsDigits digits ∧ bound ≤ Nat.ofDigitChars 10 digits 0 := by
    rintro ⟨digits, rest, same, -, large⟩
    rw [none] at same
    obtain ⟨rfl, -⟩ := List.append_eq_nil_iff.mp same.symm
    exact absurd positive (Nat.not_lt.mpr large)
  rcases eq_or_ne cs [] with rfl | present
  · exact ⟨fun read => (by cases read), fun large => absurd large (nothing rfl)⟩
  · rw [readNatural_eq present]
    split
    next none => exact ⟨fun read => (by cases read), fun large => absurd large (nothing none)⟩
    next some => exact readDigits_eq_tooLarge positive

/-- A number that is not below the bound is too large at its last digit, or before. -/
theorem NumberSpelled.startsTooLarge (spelled : NumberSpelled n cs) (large : bound ≤ n) :
    StartsTooLarge bound cs := by
  obtain ⟨sign, digits, same, signed, -, all, rfl⟩ := spelled
  exact ⟨sign, digits, [], by rw [same, List.append_nil], signed, all, large⟩

/-- A text that is not read as a number is refused for what is wrong with it. -/
theorem readNatural_eq_error (positive : 0 < bound) {reason : NumberError} :
    readNatural bound cs = .error reason ↔ IsWrong bound cs reason := by
  cases reason with
  | empty => exact readNatural_eq_empty
  | tooLarge => exact readNatural_eq_tooLarge positive
  | invalidDigit =>
      constructor
      · intro read
        have present : cs ≠ [] := by
          intro none
          rw [readNatural_eq_empty.mpr none] at read
          cases read
        have fits : ¬StartsTooLarge bound cs := by
          rw [← readNatural_eq_tooLarge positive, read]
          exact nofun
        refine ⟨present, fits, fun n spelled => ?_⟩
        rcases Nat.lt_or_ge n bound with small | large
        · have other := (readNatural_eq_ok positive).mpr ⟨spelled, small⟩
          rw [read] at other
          cases other
        · exact fits (spelled.startsTooLarge large)
      · rintro ⟨present, fits, unspelled⟩
        rcases read : readNatural bound cs with e | n
        · cases e with
          | empty => exact absurd (readNatural_eq_empty.mp read) present
          | tooLarge => exact absurd ((readNatural_eq_tooLarge positive).mp read) fits
          | invalidDigit => rfl
        · exact absurd ((readNatural_eq_ok positive).mp read).1 (unspelled n)

end Reading

end Accelerator
