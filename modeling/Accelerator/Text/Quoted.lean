import Accelerator.Text.Blank
import Accelerator.Text.Combining
import Accelerator.Text.Unassigned

/-!
# Text shown in quotation marks

A text that a report quotes is shown between double quotation marks, in one line, and so that nothing
in it is invisible. A character that would break this is escaped: by a letter if it has one, and else
by its number.
-/

namespace Accelerator.Quoted

/-- Control characters. -/
def controlRuns : Runs := [(0x00, 0x1F), (0x7F, 0x9F)]

/-- Characters that only say how others are shown. -/
def formatRuns : Runs :=
  [(0xAD, 0xAD), (0x600, 0x605), (0x61C, 0x61C), (0x6DD, 0x6DD), (0x70F, 0x70F), (0x890, 0x891),
    (0x8E2, 0x8E2), (0x180E, 0x180E), (0x200B, 0x200F), (0x202A, 0x202E), (0x2060, 0x2064),
    (0x2066, 0x206F), (0xFEFF, 0xFEFF), (0xFFF9, 0xFFFB), (0x110BD, 0x110BD), (0x110CD, 0x110CD),
    (0x13430, 0x1343F), (0x1BCA0, 0x1BCA3), (0x1D173, 0x1D17A), (0xE0001, 0xE0001),
    (0xE0020, 0xE007F)]

/-- Letters that only fill the place of another one. -/
def fillerRuns : Runs := [(0x115F, 0x1160), (0x3164, 0x3164), (0xFFA0, 0xFFA0)]

/-- Characters of private use, whose look is not known. -/
def privateRuns : Runs := [(0xE000, 0xF8FF), (0xF0000, 0xFFFFD), (0x100000, 0x10FFFD)]

/-- A character that would not be seen, or not by itself. -/
def isHidden (c : Char) : Bool :=
  (isWhiteSpace c && c != ' ') || controlRuns.hold c || formatRuns.hold c || fillerRuns.hold c
    || privateRuns.hold c || isCombining c || isUnassigned c

/-- The letter that stands for a character after a backslash. -/
def letter? : Char → Option Char
  | '"' => some '"'
  | '\\' => some '\\'
  | '\t' => some 't'
  | '\n' => some 'n'
  | '\r' => some 'r'
  | '\x00' => some '0'
  | _ => none

/-- How a character is shown. -/
def encodeChar (c : Char) : List Char :=
  match letter? c with
  | some l => ['\\', l]
  | none =>
    if isHidden c then
      ['\\', 'u', '\x7b'] ++ Nat.toDigits 16 c.toNat ++ ['\x7d']
    else [c]

/-- A text in quotation marks. -/
def encode (cs : List Char) : List Char := '"' :: cs.flatMap encodeChar ++ ['"']

end Accelerator.Quoted
