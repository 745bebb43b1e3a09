import Accelerator.Document.Toml.Quoted
import Accelerator.Document.Tree

/-!
# Numbers and times in TOML

An integer fits into 64 bits with a sign, and a single underscore may stand between any two of its
digits. In base ten it may have a sign and has no leading zero; in base 16, 8 and 2 it has neither sign
nor such a rule. A fractional number is rounded to 64 bits; one that would be rounded to positive
infinity is refused.

The only values that a record can take are the integers that are not negative. Times are checked and
otherwise not looked into.
-/

namespace Accelerator.Toml

open Scan

/-- Digits, with single underscores between them. -/
def digitRun (isDigit : Char → Bool) : Scan (List Char) := do
  let first ← satisfy isDigit
  return first :: (← many (satisfy isDigit <|> (do char '_'; satisfy isDigit)))

/-- Digits of base ten: a leading zero stands alone. -/
def decimalDigits : Scan (List Char) :=
  (do char '0'; return ['0']) <|> digitRun Char.isDigit

/-- A sign, if there is one. Is it a minus sign? -/
def minusSign : Scan Bool :=
  (do char '-'; return true) <|> (do char '+'; return false) <|> return false

/-! ## Integers -/

/-- The largest integer. -/
def integerLimit : Nat := 9223372036854775807

/-- An integer as a value, if it fits. -/
def ofInteger? (negative : Bool) (n : Nat) : Option Tree :=
  if negative ∧ n ≠ 0 then
    if n ≤ integerLimit + 1 then some .other else none
  else
    if n ≤ integerLimit then some (.natural n) else none

def liftOption {α : Type} : Option α → Scan α
  | some a => return a
  | none => failure

/-- An integer in another base than ten, which a letter after a zero names. -/
def basedInteger (letter : Char) (base : Nat) (isDigit : Char → Bool) : Scan Tree := do
  word ['0', letter]
  liftOption (ofInteger? false (ofDigits base (← digitRun isDigit)))

def decimalInteger : Scan Tree := do
  let negative ← minusSign
  liftOption (ofInteger? negative (ofDigits 10 (← decimalDigits)))

def integer : Scan Tree :=
  basedInteger 'x' 16 isHexDigit <|> basedInteger 'o' 8 (fun c => '0' ≤ c && c ≤ '7') <|>
    basedInteger 'b' 2 (fun c => c == '0' || c == '1') <|> decimalInteger

/-! ## Fractional numbers -/

/-- From here on a number is rounded to infinity: halfway between the largest number of 64 bits and
the next power of two. -/
def infinityBound : Nat := (1 <<< 1024) - (1 <<< 970)

/-- `digits · 10 ^ (exponent - places)` is rounded to infinity. A number with fewer digits than places
is less than one, and one with a large exponent is too large unless it is zero. -/
def isInfinite (digits : List Char) (places : Nat) (exponent : Int) : Bool :=
  let n := ofDigits 10 digits
  let shift := exponent - places
  if n = 0 then false
  else if shift < 0 then
    if digits.length ≤ shift.natAbs then false else infinityBound * Nat.pow 10 shift.natAbs ≤ n
  else if 400 < shift then true
  else infinityBound ≤ n * Nat.pow 10 shift.natAbs

/-- The digits after a decimal point. -/
def fraction : Scan (List Char) := do
  char '.'
  digitRun Char.isDigit

def exponent : Scan Int := do
  let _ ← satisfy fun c => c == 'e' || c == 'E'
  let negative ← minusSign
  let n := ofDigits 10 (← digitRun Char.isDigit)
  return if negative then -n else n

/-- A number with a fraction, an exponent or both. -/
def decimalFraction : Scan Tree := do
  let negative ← minusSign
  let whole ← decimalDigits
  let (places, e) ←
    (do return ([], ← exponent)) <|>
    (do
      let places ← fraction
      return (places, (← optional exponent).getD 0))
  if !negative && isInfinite (whole ++ places) places.length e then failure
  return .other

/-- Infinity, or no number at all. -/
def specialNumber : Scan Tree := do
  let _ ← minusSign
  word ['i', 'n', 'f'] <|> word ['n', 'a', 'n']
  return .other

/-! ## Times -/

/-- A number of `n` digits within bounds. -/
def timePart (n low high : Nat) : Scan Nat := do
  let value := ofDigits 10 (← exactly n Char.isDigit)
  if low ≤ value ∧ value ≤ high then return value else failure

def daysInMonth (year month : Nat) : Nat :=
  if month = 2 then
    if year % 4 = 0 ∧ (year % 100 ≠ 0 ∨ year % 400 = 0) then 29 else 28
  else if month = 4 ∨ month = 6 ∨ month = 9 ∨ month = 11 then 30
  else 31

def date : Scan Unit := do
  let year ← timePart 4 0 9999
  char '-'
  let month ← timePart 2 1 12
  char '-'
  let _ ← timePart 2 1 (daysInMonth year month)

def timeOfDay : Scan Unit := do
  let _ ← timePart 2 0 23
  char ':'
  let _ ← timePart 2 0 59
  char ':'
  let _ ← timePart 2 0 60
  let _ ← optional (do char '.'; takeWhile1 Char.isDigit)

/-- The difference to universal time. -/
def timeOffset : Scan Unit :=
  (do let _ ← satisfy fun c => c == 'Z' || c == 'z') <|>
  (do
    let _ ← satisfy fun c => c == '+' || c == '-'
    let _ ← timePart 2 0 23
    char ':'
    let _ ← timePart 2 0 59)

/-- A date, a time of day, or both. -/
def dateTime : Scan Tree :=
  (do
    date
    let _ ← optional (do
      let _ ← satisfy fun c => c == 'T' || c == 't' || c == ' '
      timeOfDay
      optional timeOffset)
    return .dateTime) <|>
  (do timeOfDay; return .dateTime)

def number : Scan Tree := dateTime <|> decimalFraction <|> specialNumber <|> integer

end Accelerator.Toml
