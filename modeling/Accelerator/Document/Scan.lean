/-!
# Scanners

A scanner reads something off the front of a text, and answers with what it has read and with the
characters that follow, or with nothing. Scanners are put together with `do`, and by `<|>`, which goes
back to where it was when its first scanner reads nothing.

`Scan.many` is the only loop. It stops when its scanner reads nothing, and also when it reads without
getting ahead, which is why it always stops. What is left of a text carries its length along, so that
this is seen without counting.
-/

namespace Accelerator

/-- What is left of a text. -/
structure Rest where
  chars : List Char
  size : Nat
  size_eq : chars.length = size

namespace Rest

def ofList (cs : List Char) : Rest := ⟨cs, cs.length, rfl⟩

/-- The first character, and what follows it. -/
def pop? : Rest → Option (Char × Rest)
  | ⟨c :: cs, n, h⟩ => some (c, ⟨cs, n - 1, by simp at h; omega⟩)
  | ⟨[], _, _⟩ => none

/-- As many characters of a kind as there are, and what follows them. -/
def span (kind : Char → Bool) (r : Rest) : List Char × Rest :=
  (r.chars.takeWhile kind,
    ⟨r.chars.dropWhile kind, r.size - (r.chars.takeWhile kind).length, by
      have h : (r.chars.takeWhile kind).length + (r.chars.dropWhile kind).length = r.chars.length := by
        rw [← List.length_append, List.takeWhile_append_dropWhile]
      have := r.size_eq
      omega⟩)

/-- The first `n` characters, or all if there are fewer, and what follows them. -/
def cut (n : Nat) (r : Rest) : List Char × Rest :=
  (r.chars.take n, ⟨r.chars.drop n, r.size - n, by simp [r.size_eq]⟩)

end Rest

/-- Reads a value off the front of a text. -/
abbrev Scan (α : Type) := StateT Rest Option α

namespace Scan

variable {α : Type}

/-- What a scanner reads from a text that it reads as a whole. -/
def whole? (p : Scan α) (cs : List Char) : Option α :=
  match p.run (.ofList cs) with
  | some (a, rest) => if rest.chars.isEmpty then some a else none
  | none => none

/-- One character of a kind. -/
def satisfy (kind : Char → Bool) : Scan Char := fun r =>
  match r.pop? with
  | some (c, rest) => if kind c then some (c, rest) else none
  | none => none

/-- The given character. -/
def char (c : Char) : Scan Unit := do
  let _ ← satisfy (· == c)

/-- The given characters in a row. -/
def word (cs : List Char) : Scan Unit := cs.forM char

/-- As many characters of a kind as there are. -/
def takeWhile (kind : Char → Bool) : Scan (List Char) := fun r => some (r.span kind)

/-- As `takeWhile`, and at least one character. -/
def takeWhile1 (kind : Char → Bool) : Scan (List Char) := do
  let first ← satisfy kind
  return first :: (← takeWhile kind)

def skipWhile (kind : Char → Bool) : Scan Unit := do
  let _ ← takeWhile kind

/-- `n` characters of a kind. -/
def exactly (n : Nat) (kind : Char → Bool) : Scan (List Char) := fun r =>
  let (taken, rest) := r.cut n
  if taken.length = n && taken.all kind then some (taken, rest) else none

/-- The next character, left in place. -/
def peek? : Scan (Option Char) := fun r => some (r.chars.head?, r)

/-- The end of the text. -/
def ended : Scan Unit := fun r => if r.chars.isEmpty then some ((), r) else none

/-- What a scanner reads as often as it reads anything. -/
def repeated (p : Scan α) (r : Rest) : List α × Rest :=
  match p r with
  | none => ([], r)
  | some (a, rest) =>
    if rest.size < r.size then
      let (others, rest) := repeated p rest
      (a :: others, rest)
    else ([a], rest)
termination_by r.size

def many (p : Scan α) : Scan (List α) := fun r => some (repeated p r)

/-- One reading or more, with a separator between any two. -/
def separated (p : Scan α) (separator : Scan Unit) : Scan (List α) := do
  let first ← p
  return first :: (← many (do separator; p))

end Scan

end Accelerator
