/-!
# White space

The characters that Unicode counts as white space. They are what may stand around a number that a
person has typed.
-/

namespace Accelerator

/-- A character with the property `White_Space`. -/
def isWhiteSpace (c : Char) : Bool :=
  let n := c.toNat
  (0x09 ≤ n && n ≤ 0x0D) || n == 0x20 || n == 0x85 || n == 0xA0 || n == 0x1680
    || (0x2000 ≤ n && n ≤ 0x200A) || n == 0x2028 || n == 0x2029 || n == 0x202F || n == 0x205F
    || n == 0x3000

/-- A text without the white space at its beginning. -/
def trimLeft (cs : List Char) : List Char := cs.dropWhile isWhiteSpace

/-- A text without the white space at its beginning and at its end. -/
def trim (cs : List Char) : List Char := (trimLeft (trimLeft cs).reverse).reverse

end Accelerator
