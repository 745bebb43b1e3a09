import Accelerator.Text.Blank
import Mathlib.Data.List.TakeWhile

/-!
# What is left without the white space around it

A text without the white space at its two ends is the one part of it that has white space alone on either
side and neither begins nor ends with any (`trimsTo_iff`).
-/

namespace Accelerator

/-- White space alone. -/
def IsBlank (cs : List Char) : Prop := ∀ c ∈ cs, isWhiteSpace c = true

instance (cs : List Char) : Decidable (IsBlank cs) :=
  decidable_of_iff (cs.all isWhiteSpace = true) List.all_eq_true

/-- A text is its core with white space around it. The core itself neither begins nor ends with white
space. -/
structure TrimsTo (text core : List Char) : Prop where
  around : ∃ left right, IsBlank left ∧ IsBlank right ∧ text = left ++ core ++ right
  begins : ∀ c, core.head? = some c → isWhiteSpace c = false
  ends : ∀ c, core.getLast? = some c → isWhiteSpace c = false

theorem trimLeft_append {left : List Char} (blank : IsBlank left) (rest : List Char) :
    trimLeft (left ++ rest) = trimLeft rest := List.dropWhile_append_of_pos blank

theorem trimLeft_of_isBlank {cs : List Char} (blank : IsBlank cs) : trimLeft cs = [] :=
  List.dropWhile_eq_nil_iff.mpr blank

theorem trimLeft_of_head {c : Char} (visible : isWhiteSpace c = false) (rest : List Char) :
    trimLeft (c :: rest) = c :: rest :=
  List.dropWhile_cons_of_neg (by rw [visible]; decide)

theorem IsBlank.reverse {cs : List Char} (blank : IsBlank cs) : IsBlank cs.reverse :=
  fun c member => blank c (List.mem_reverse.mp member)

theorem isBlank_takeWhile (cs : List Char) : IsBlank (cs.takeWhile isWhiteSpace) :=
  fun _ => List.mem_takeWhile_imp

theorem isWhiteSpace_of_head_trimLeft {cs : List Char} {c : Char}
    (head : (trimLeft cs).head? = some c) : isWhiteSpace c = false := by
  have first := List.head?_dropWhile_not isWhiteSpace cs
  rwa [show List.dropWhile isWhiteSpace cs = trimLeft cs from rfl, head] at first

theorem TrimsTo.trim_eq {text core : List Char} (trims : TrimsTo text core) : trim text = core := by
  obtain ⟨⟨left, right, blank, blank', rfl⟩, begins, ends⟩ := trims
  rw [trim, List.append_assoc, trimLeft_append blank]
  rcases core with _ | ⟨c, rest⟩
  · rw [List.nil_append, trimLeft_of_isBlank blank']
    rfl
  · rw [List.cons_append, trimLeft_of_head (begins c rfl), ← List.cons_append, List.reverse_append,
      trimLeft_append blank'.reverse]
    rcases backwards : (c :: rest).reverse with _ | ⟨last, more⟩
    · exact absurd (List.reverse_eq_nil_iff.mp backwards) (List.cons_ne_nil _ _)
    · have at_end : (c :: rest).getLast? = some last := by
        rw [← List.head?_reverse, backwards]
        rfl
      rw [trimLeft_of_head (ends last at_end), ← backwards, List.reverse_reverse]

theorem trimsTo_trim (text : List Char) : TrimsTo text (trim text) := by
  -- What is taken from either end is put back in turn.
  have front : text.takeWhile isWhiteSpace ++ trimLeft text = text := List.takeWhile_append_dropWhile
  have back : trim text ++ ((trimLeft text).reverse.takeWhile isWhiteSpace).reverse =
      trimLeft text := by
    rw [trim, ← List.reverse_append]
    show (List.takeWhile _ _ ++ List.dropWhile _ _).reverse = _
    rw [List.takeWhile_append_dropWhile, List.reverse_reverse]
  refine ⟨⟨_, _, isBlank_takeWhile text, (isBlank_takeWhile (trimLeft text).reverse).reverse, ?_⟩,
    fun c head => ?_, fun c last => ?_⟩
  · rw [List.append_assoc, back, front]
  · refine @isWhiteSpace_of_head_trimLeft text c ?_
    rw [← back, List.head?_append, head]
    rfl
  · rw [trim, List.getLast?_reverse] at last
    exact isWhiteSpace_of_head_trimLeft last

theorem trimsTo_iff {text core : List Char} : TrimsTo text core ↔ trim text = core :=
  ⟨TrimsTo.trim_eq, fun same => same ▸ trimsTo_trim text⟩

theorem isWhiteSpace_of_isDigit {c : Char} (digit : c.isDigit = true) : isWhiteSpace c = false := by
  have range : 48 ≤ c.toNat ∧ c.toNat ≤ 57 := Char.isDigit_iff_toNat.mp digit
  rw [← Bool.not_eq_true]
  simp only [isWhiteSpace, Bool.or_eq_true, Bool.and_eq_true, decide_eq_true_eq, beq_iff_eq]
  omega

end Accelerator
