import Accelerator.Document.Tree

/-!
# Reading JSON

The grammar is strict: nothing but blanks may surround a value, no comma may be left over, and a text
holds no bare control character. An escape of the form `\u` names a UTF-16 unit; two of them in a row
may name one character, and half of such a pair names none. A text with such a half is well-formed
and denotes nothing, and so does a table that has one among its names.

A parser answers with what it has read and with the characters that follow, or with nothing.
-/

namespace Accelerator.Json

def isBlank (c : Char) : Bool := c == ' ' || c == '\n' || c == '\t' || c == '\r'

def skipBlanks (cs : List Char) : List Char := cs.dropWhile isBlank

def hexValue? (c : Char) : Option Nat :=
  if '0' ≤ c ∧ c ≤ '9' then some (c.toNat - '0'.toNat)
  else if 'a' ≤ c ∧ c ≤ 'f' then some (c.toNat - 'a'.toNat + 10)
  else if 'A' ≤ c ∧ c ≤ 'F' then some (c.toNat - 'A'.toNat + 10)
  else none

/-- What is written inside quotation marks: characters, and UTF-16 units given by number. -/
inductive TextUnit where
  | char (c : Char)
  | unit (n : Nat)
deriving DecidableEq, Inhabited

/-- The character that a single letter after a backslash stands for. -/
def escapedChar? : Char → Option Char
  | '"' => some '"'
  | '\\' => some '\\'
  | '/' => some '/'
  | 'b' => some '\x08'
  | 'f' => some '\x0c'
  | 'n' => some '\n'
  | 'r' => some '\r'
  | 't' => some '\t'
  | _ => none

/-- The UTF-16 unit that four hexadecimal digits name. -/
def hexUnit? (a b c d : Char) : Option Nat := do
  return ((← hexValue? a) * 16 + (← hexValue? b)) * 256
    + ((← hexValue? c) * 16 + (← hexValue? d))

/-- The units up to the closing quotation mark, and what follows it. -/
def units? : List Char → Option (List TextUnit × List Char)
  | [] => none
  | '"' :: rest => some ([], rest)
  | '\\' :: 'u' :: a :: b :: c :: d :: rest => do
    let n ← hexUnit? a b c d
    let (others, rest) ← units? rest
    return (.unit n :: others, rest)
  | '\\' :: c :: rest => do
    let c ← escapedChar? c
    let (others, rest) ← units? rest
    return (.char c :: others, rest)
  | c :: rest =>
    if c = '\\' ∨ c.toNat < 0x20 then none
    else (units? rest).map fun (others, rest) => (.char c :: others, rest)

def isHighSurrogate (n : Nat) : Bool := 0xD800 ≤ n && n < 0xDC00

def isLowSurrogate (n : Nat) : Bool := 0xDC00 ≤ n && n < 0xE000

/-- The characters that units denote. A high surrogate needs a low one right after it, and a low
surrogate a high one before. -/
def assemble? : List TextUnit → Option (List Char)
  | [] => some []
  | .char c :: rest => (assemble? rest).map (c :: ·)
  | .unit high :: .unit low :: rest =>
    if isHighSurrogate high then
      if isLowSurrogate low then
        (assemble? rest).map
          (Char.ofNat (0x10000 + (high - 0xD800) * 0x400 + (low - 0xDC00)) :: ·)
      else none
    else if isLowSurrogate high then none
    else (assemble? (.unit low :: rest)).map (Char.ofNat high :: ·)
  | .unit n :: rest =>
    if isHighSurrogate n || isLowSurrogate n then none
    else (assemble? rest).map (Char.ofNat n :: ·)

/-- A text after its opening quotation mark: what it denotes, if it denotes anything, and what
follows. -/
def quotedText? (cs : List Char) : Option (Option String × List Char) := do
  let (units, rest) ← units? cs
  return ((assemble? units).map String.ofList, rest)

/-- A run of one digit or more, as digits, with what follows. -/
def digits? (cs : List Char) : Option (List Char × List Char) :=
  match cs.takeWhile Char.isDigit with
  | [] => none
  | digits => some (digits, cs.dropWhile Char.isDigit)

/-- The number that a run of decimal digits denotes. -/
def ofDigits (digits : List Char) : Nat :=
  digits.foldl (fun n c => n * 10 + (c.toNat - '0'.toNat)) 0

/-- The digits before the point: a zero stands alone. -/
def integer? : List Char → Option (Nat × List Char)
  | '0' :: rest => some (0, rest)
  | cs => (digits? cs).map fun (digits, rest) => (ofDigits digits, rest)

/-- What follows a fraction, which has at least one digit, and whether there was one. -/
def skipFraction? : List Char → Option (Bool × List Char)
  | '.' :: rest => (digits? rest).map fun (_, rest) => (true, rest)
  | cs => some (false, cs)

/-- The characters after an optional sign. -/
def skipSign : List Char → List Char
  | '+' :: rest | '-' :: rest => rest
  | cs => cs

/-- What follows an exponent, which has at least one digit, and whether there was one. -/
def skipExponent? : List Char → Option (Bool × List Char)
  | 'e' :: rest | 'E' :: rest => (digits? (skipSign rest)).map fun (_, rest) => (true, rest)
  | cs => some (false, cs)

/-- A number. Only one without sign, fraction and exponent is a natural number, by its spelling and
not by its value. -/
def number? (cs : List Char) : Option (Tree × List Char) := do
  let (negative, cs) := match cs with
    | '-' :: rest => (true, rest)
    | _ => (false, cs)
  let (n, cs) ← integer? cs
  let (fraction, cs) ← skipFraction? cs
  let (exponent, cs) ← skipExponent? cs
  return (if negative || fraction || exponent then .other else .natural n, cs)

/-- The tree of a text literal. -/
def ofText : Option String → Tree
  | some s => .text s
  | none => .other

/-- The tree of a table literal, given the names that denote something. -/
def ofEntries (entries : List (Option String × Tree)) : Tree :=
  match entries.mapM fun (name, value) => name.map (·, value) with
  | some entries => .table entries
  | none => .other

mutual

/-- One value, after any blanks. Every level of nesting takes up at least one character, which
bounds the depth by `fuel`. -/
def value? : (fuel : Nat) → List Char → Option (Tree × List Char)
  | 0, _ => none
  | fuel + 1, cs =>
    match skipBlanks cs with
    | 'n' :: 'u' :: 'l' :: 'l' :: rest => some (.null, rest)
    | 't' :: 'r' :: 'u' :: 'e' :: rest => some (.bool true, rest)
    | 'f' :: 'a' :: 'l' :: 's' :: 'e' :: rest => some (.bool false, rest)
    | '"' :: rest => (quotedText? rest).map fun (s, rest) => (ofText s, rest)
    | '[' :: rest =>
      match skipBlanks rest with
      | ']' :: rest => some (.list [], rest)
      | rest => (items? fuel rest).map fun (items, rest) => (.list items, rest)
    | '{' :: rest =>
      match skipBlanks rest with
      | '}' :: rest => some (.table [], rest)
      | rest => (entries? fuel rest).map fun (entries, rest) => (ofEntries entries, rest)
    | rest => number? rest

/-- One item or more, and the bracket that closes the list. -/
def items? : (fuel : Nat) → List Char → Option (List Tree × List Char)
  | 0, _ => none
  | fuel + 1, cs => do
    let (item, rest) ← value? fuel cs
    match skipBlanks rest with
    | ',' :: rest =>
      let (others, rest) ← items? fuel rest
      return (item :: others, rest)
    | ']' :: rest => return ([item], rest)
    | _ => none

/-- One entry or more, and the brace that closes the table. -/
def entries? : (fuel : Nat) → List Char → Option (List (Option String × Tree) × List Char)
  | 0, _ => none
  | fuel + 1, cs =>
    match skipBlanks cs with
    | '"' :: rest => do
      let (name, rest) ← quotedText? rest
      match skipBlanks rest with
      | ':' :: rest =>
        let (value, rest) ← value? fuel rest
        match skipBlanks rest with
        | ',' :: rest =>
          let (others, rest) ← entries? fuel rest
          return ((name, value) :: others, rest)
        | '}' :: rest => return ([(name, value)], rest)
        | _ => none
      | _ => none
    | _ => none

end

/-- The value that a text denotes. -/
def parse? (text : String) : Option Tree :=
  let cs := text.toList
  match value? (2 * cs.length + 1) cs with
  | some (tree, rest) => if (skipBlanks rest).isEmpty then some tree else none
  | none => none

end Accelerator.Json
