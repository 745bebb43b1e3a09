import Accelerator.Document.Toml.Number
import Accelerator.Document.Toml.Section

/-!
# Reading TOML

A document is a list of lines. A line holds a header, an entry or nothing, and may end with a comment;
a value that is written between brackets or between three quotation marks may run over several lines.

`Toml.parse?` reads the statements of a document and builds the tables that they describe.
-/

namespace Accelerator.Toml

open Scan

/-- Keys have fewer parts than this, and values are nested less deeply. -/
def depthLimit : Nat := 80

def blanks : Scan Unit := skipWhile isBlank

def comment : Scan Unit := do
  char '#'
  skipWhile isLineChar

def lineEnd : Scan Unit := newline <|> ended

/-- What may follow in a line that has said something. -/
def restOfLine : Scan Unit := do
  blanks
  let _ ← optional comment
  lineEnd

/-! ## Keys -/

def isBareChar (c : Char) : Bool := c.isAlphanum || c == '-' || c == '_'

/-- One part of a key. -/
def keyPart : Scan String := do
  blanks
  let cs ← basicText <|> literalText <|> takeWhile1 isBareChar
  blanks
  return String.ofList cs

def key : Scan Key := do
  let parts ← separated keyPart (char '.')
  match parts.getLast? with
  | some name => if parts.length < depthLimit then return ⟨parts.dropLast, name⟩ else failure
  | none => failure

/-! ## Values -/

def boolean : Scan Tree :=
  (do word ['t', 'r', 'u', 'e']; return .bool true) <|>
  (do word ['f', 'a', 'l', 's', 'e']; return .bool false)

/-- A value that holds no other value. -/
def plainValue : Scan Tree :=
  (do return .text (← anyText)) <|> boolean <|> number

/-- Blanks, line breaks and whole comments. -/
def space : Scan Unit := do
  let _ ← many (newline <|> (do let _ ← takeWhile1 isBlank) <|> (do comment; newline))

/-- Values between brackets, with a comma after each; the last comma may be left out. -/
def list (value : Scan Tree) : Scan Tree := do
  char '['
  let items ← optional (separated (do space; let item ← value; space; return item) (char ','))
  if items.isSome then
    let _ ← optional (char ',')
  space
  char ']'
  return .list (items.getD [])

/-- An entry: a key and its value. -/
def entry (value : Scan Tree) : Scan (Key × Tree) := do
  let key ← key
  char '='
  blanks
  return (key, ← value)

/-- Entries between braces, all in one line, with a comma between any two. -/
def inlineTable (value : Scan Tree) : Scan Tree := do
  char '\x7b'
  let entries ← optional (separated (do let entry ← entry value; blanks; return entry) (char ','))
  blanks
  char '\x7d'
  liftOption (ofEntries? (entries.getD []))

/-- A value in which lists and tables are nested at most `depth` deep. -/
def value : (depth : Nat) → Scan Tree
  | 0 => plainValue
  | depth + 1 => plainValue <|> list (value depth) <|> inlineTable (value depth)

/-! ## Documents -/

/-- The header of a table, or of a further table in a list of tables. -/
def header : Scan Statement :=
  (do
    word ['[', '[']
    let key ← key
    word [']', ']']
    return .tables key) <|>
  (do
    char '['
    let key ← key
    char ']'
    return .table key)

/-- A header or an entry. -/
def statement : Scan Statement :=
  header <|> do
    let (key, value) ← entry (value (depthLimit - 1))
    return .entry key value

/-- One line, from its first character that is no blank. -/
def line : Scan (Option Statement) :=
  (do newline; return none) <|>
  (do comment; lineEnd; return none) <|>
  (do
    let statement ← statement
    restOfLine
    return some statement)

/-- A whole document. A mark of the byte order may stand at its beginning. -/
def document : Scan (List Statement) := do
  let _ ← optional (char (Char.ofNat 0xFEFF))
  blanks
  let lines ← many (do let line ← line; blanks; return line)
  return lines.filterMap id

/-- The tree that a document denotes. -/
def parse? (text : String) : Option Tree :=
  (document.whole? text.toList).bind ofStatements?

end Accelerator.Toml
