import Accelerator.Dim3
import Accelerator.Text.Quoted

/-!
# Sizes as a person types them

Extents are typed as one to three numbers with commas between them, and white space around each number
does not matter. Extents that are left out are 1.

The first piece that is no number is reported, whatever follows it. How many pieces there are only
counts once each of them is a number.
-/

namespace Accelerator

/-- Why a text is not a number. -/
inductive NumberError where
  | empty
  | invalidDigit
  | tooLarge
deriving DecidableEq, Inhabited

def NumberError.message : NumberError → String
  | empty => "cannot parse integer from empty string"
  | invalidDigit => "invalid digit found in string"
  | tooLarge => "number too large to fit in target type"

/-- Go on reading digits after the number `n`. The digits are looked at one after the other, so that
the first thing that is wrong is reported. -/
def readDigits (bound : Nat) : (n : Nat) → List Char → Except NumberError Nat
  | n, [] => .ok n
  | n, c :: rest =>
    if c.isDigit then
      let n := n * 10 + (c.toNat - '0'.toNat)
      if n < bound then readDigits bound n rest else .error .tooLarge
    else .error .invalidDigit

/-- A natural number below `bound`, which may have a plus sign. A lone sign is no number. -/
def readNatural (bound : Nat) : List Char → Except NumberError Nat
  | [] => .error .empty
  | ['+'] => .error .invalidDigit
  | '+' :: digits => readDigits bound 0 digits
  | digits => readDigits bound 0 digits

/-- Why a text is not a list of sizes. -/
inductive SizeListError where
  /-- The first piece that is not a number. -/
  | notNumber (piece : String) (reason : NumberError)
  /-- There are too many numbers. -/
  | tooMany (count : Nat)
deriving DecidableEq, Inhabited

def SizeListError.message : SizeListError → String
  | notNumber piece reason =>
    String.ofList (Quoted.encode piece.toList) ++ ": " ++ reason.message
  | tooMany count => s!"expected 1 to 3 comma-separated sizes, got {count}"

namespace SizeList

/-- The pieces of a text between its commas. A text without commas is one piece. -/
def pieces (cs : List Char) : List (List Char) := cs.splitOn ','

/-- One size. -/
def readPiece (piece : List Char) : Except SizeListError Nat :=
  match readNatural countBound (trim piece) with
  | .ok n => .ok n
  | .error reason => .error (.notNumber (String.ofList piece) reason)

/-- Extents from a list of sizes. -/
def parse (text : String) : Except SizeListError Dim3 := do
  match ← (pieces text.toList).mapM readPiece with
  | [x] => .ok ⟨x, 1, 1⟩
  | [x, y] => .ok ⟨x, y, 1⟩
  | [x, y, z] => .ok ⟨x, y, z⟩
  | sizes => .error (.tooMany sizes.length)

end SizeList

end Accelerator
