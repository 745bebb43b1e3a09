import Accelerator.Document.Scan

/-!
# Text in TOML

A text is written between single quotation marks, as it is, or between double ones, with escapes.
Either kind of mark can be written three times on each side; the text may then run over several lines,
and a line break counts as a line feed, however it is written. A line break right after the opening
marks does not count. One or two marks inside such a text stand for themselves, also right before the
closing ones.

No text holds a bare control character other than a tab.
-/

namespace Accelerator.Toml

open Scan

def isBlank (c : Char) : Bool := c == ' ' || c == '\t'

def isHexDigit (c : Char) : Bool :=
  c.isDigit || ('a' ≤ c && c ≤ 'f') || ('A' ≤ c && c ≤ 'F')

/-- What a digit of base 16 or less stands for. -/
def digitValue (c : Char) : Nat :=
  if c.isDigit then c.toNat - '0'.toNat
  else if 'a' ≤ c then c.toNat - 'a'.toNat + 10
  else c.toNat - 'A'.toNat + 10

/-- The number that digits of the given base stand for. -/
def ofDigits (base : Nat) (digits : List Char) : Nat :=
  digits.foldl (fun n c => n * base + digitValue c) 0

/-- Characters that may stand in a line: everything but control characters, and the tab. -/
def isLineChar (c : Char) : Bool := c == '\t' || (0x20 ≤ c.toNat && c.toNat ≠ 0x7f)

/-- A line feed, after a carriage return or alone. -/
def newline : Scan Unit := do
  let _ ← optional (char '\r')
  char '\n'

/-- The character with a given number, which must not be a surrogate. -/
def ofCodePoint? (n : Nat) : Option Char :=
  if n.isValidChar then some (Char.ofNat n) else none

/-- A character given by `n` hexadecimal digits. -/
def hexEscape (n : Nat) : Scan Char := do
  let digits ← exactly n isHexDigit
  match ofCodePoint? (ofDigits 16 digits) with
  | some c => return c
  | none => failure

/-- The character that a single letter after a backslash stands for. -/
def escapedChar? : Char → Option Char
  | 'b' => some '\x08'
  | 't' => some '\t'
  | 'n' => some '\n'
  | 'f' => some '\x0c'
  | 'r' => some '\r'
  | '"' => some '"'
  | '\\' => some '\\'
  | _ => none

def escape : Scan Char := do
  char '\\'
  match ← satisfy fun _ => true with
  | 'u' => hexEscape 4
  | 'U' => hexEscape 8
  | c =>
    match escapedChar? c with
    | some c => return c
    | none => failure

/-- A character that stands for itself between double quotation marks. -/
def plainChar : Scan Char := satisfy fun c => isLineChar c && c != '"' && c != '\\'

/-- A text between double quotation marks. -/
def basicText : Scan (List Char) := do
  char '"'
  let cs ← many (plainChar <|> escape)
  char '"'
  return cs

/-- A text between single quotation marks. -/
def literalText : Scan (List Char) := do
  char '\''
  let cs ← takeWhile fun c => isLineChar c && c != '\''
  char '\''
  return cs

/-! ## Texts of several lines -/

/-- One or two quotation marks that do not end the text, since something else follows. -/
def innerQuotes (quote : Char) : Scan (List Char) := do
  let quotes ← takeWhile1 (· == quote)
  if quotes.length ≤ 2 ∧ (← peek?).isSome then return quotes else failure

/-- Three quotation marks that end the text, and up to two before them that belong to it. -/
def closingQuotes (quote : Char) : Scan (List Char) := do
  let quotes ← takeWhile1 (· == quote)
  if 3 ≤ quotes.length ∧ quotes.length ≤ 5 then return quotes.drop 3 else failure

/-- A backslash at the end of a line hides the line break, and all blanks and further breaks. -/
def hiddenNewline : Scan Unit := do
  char '\\'
  skipWhile isBlank
  newline
  let _ ← many (newline <|> (do let _ ← takeWhile1 isBlank))

/-- A text between three quotation marks on each side, made of the given pieces. -/
def longText (quote : Char) (piece : Scan (List Char)) : Scan (List Char) := do
  word [quote, quote, quote]
  let _ ← optional newline
  let pieces ← many
    (piece <|> (do newline; return ['\n']) <|> innerQuotes quote)
  return pieces.flatten ++ (← closingQuotes quote)

def longBasicText : Scan (List Char) :=
  longText '"' ((do return [← plainChar]) <|> (do hiddenNewline; return []) <|>
    (do return [← escape]))

def longLiteralText : Scan (List Char) :=
  longText '\'' (takeWhile1 fun c => isLineChar c && c != '\'')

/-- A text as a value. -/
def anyText : Scan String := do
  return String.ofList
    (← longBasicText <|> basicText <|> longLiteralText <|> literalText)

end Accelerator.Toml
