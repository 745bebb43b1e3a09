import Accelerator.Document.Tree

/-!
# Writing JSON

A tree is written without any blanks, and its entries in the order in which it holds them. A
quotation mark, a backslash and the characters below U+0020 are escaped; everything else is written
as it is.

The text is made of *pieces*, the portions in which it is handed to whatever it is written to. Joined
together they are the text.
-/

namespace Accelerator.Json

def hexDigit (n : Nat) : Char :=
  if n < 10 then Char.ofNat ('0'.toNat + n) else Char.ofNat ('a'.toNat + (n - 10))

/-- How a character is written inside a text, when it is not written as it is. -/
def escape? (c : Char) : Option String :=
  match c with
  | '"' => some "\\\""
  | '\\' => some "\\\\"
  | '\x08' => some "\\b"
  | '\t' => some "\\t"
  | '\n' => some "\\n"
  | '\x0c' => some "\\f"
  | '\r' => some "\\r"
  | c =>
    if c.toNat < 0x20 then
      some ("\\u00" ++ String.ofList [hexDigit (c.toNat / 16), hexDigit (c.toNat % 16)])
    else none

/-- A run of characters that are written as they are, latest first, as one piece. -/
def plainPiece (run : List Char) : List String :=
  if run.isEmpty then [] else [String.ofList run.reverse]

/-- The inside of a text: each escape is a piece, and so is each run between two of them. -/
def textPieces (run : List Char) : List Char → List String
  | [] => plainPiece run
  | c :: rest =>
    match escape? c with
    | some e => plainPiece run ++ e :: textPieces [] rest
    | none => textPieces (c :: run) rest

/-- A text in quotation marks. -/
def quoted (s : String) : List String :=
  "\"" :: textPieces [] s.toList ++ ["\""]

mutual

/-- The pieces of a tree. What cannot be written in JSON is written as absent. -/
def pieces : Tree → List String
  | .null | .dateTime | .other => ["null"]
  | .bool b => [if b then "true" else "false"]
  | .natural n => [toString n]
  | .text s => quoted s
  | .list items => "[" :: itemPieces true items ++ ["]"]
  | .table entries => "\x7b" :: entryPieces true entries ++ ["\x7d"]

/-- The pieces of the items of a list. A comma stands before every item but the first. -/
def itemPieces (first : Bool) : List Tree → List String
  | [] => []
  | item :: rest => (if first then [] else [","]) ++ pieces item ++ itemPieces false rest

/-- The pieces of the entries of a table. A comma stands before every entry but the first. -/
def entryPieces (first : Bool) : List (String × Tree) → List String
  | [] => []
  | (name, value) :: rest =>
    (if first then [] else [","]) ++ quoted name ++ ":" :: pieces value ++ entryPieces false rest

end

/-- A tree as text. -/
def render (t : Tree) : String := String.join (pieces t)

end Accelerator.Json
