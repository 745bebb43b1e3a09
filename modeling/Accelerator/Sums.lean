import Accelerator.Dim3

/-!
# Sums

A device adds and multiplies words. A sum that is no word has no value, and whatever needs it ends in
a fault.

Few things that can be said about a device have to do with this, and the others are said of numbers of
any size. How sums are taken is therefore a parameter of all that takes them, and the sums are `Option`
values: in words there is none where words do not hold it.
-/

namespace Accelerator

/-- How sums are taken. -/
class Sums where
  /-- A sum that words do not hold has no value. -/
  inWords : Bool

namespace Sums

/-- Sums of any size. This is what is meant where nothing else is said. -/
instance unbounded : Sums := ⟨false⟩

/-- The sums of a device. -/
@[reducible] def words : Sums := ⟨true⟩

/-- There is no third way to take sums. -/
theorem unbounded_or_words (sums : Sums) : sums = unbounded ∨ sums = words := by
  rcases sums with ⟨_ | _⟩
  · exact .inl rfl
  · exact .inr rfl

section Hold

variable [Sums]

/-- Go on only if sums have a value, of which it is known whether words hold them. -/
def guard? (held : Bool) : Option Unit := if inWords && !held then none else some ()

/-- A sum, which a word holds if it is below the bound. -/
def hold? (bound n : Nat) : Option Nat := (guard? (decide (n < bound))).map fun _ => n

@[simp] theorem guard?_true : guard? true = some () := by simp [guard?]

theorem hold?_of_lt {bound n : Nat} (below : n < bound) : hold? bound n = some n := by
  simp [hold?, below]

end Hold

@[simp] theorem guard?_unbounded (held : Bool) : @guard? unbounded held = some () := rfl

@[simp] theorem guard?_words (held : Bool) :
    @guard? words held = if held then some () else none := by
  cases held <;> rfl

@[simp] theorem hold?_unbounded (bound n : Nat) : @hold? unbounded bound n = some n := rfl

@[simp] theorem hold?_words (bound n : Nat) :
    @hold? words bound n = if n < bound then some n else none := by
  simp only [hold?, guard?_words, decide_eq_true_eq]
  split <;> rfl

end Sums

end Accelerator
