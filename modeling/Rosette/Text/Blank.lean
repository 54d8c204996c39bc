import Rosette.Text.Ranges

/-!
# White space

The characters that separate words and are trimmed from the ends of a line: Unicode white space and the
four information separators U+001C to U+001F. The zero-width space and the byte order mark are not blank.
-/

namespace Rosette.Text

/-- The code points of white space. -/
def blankRanges : List (Nat × Nat) :=
  [(0x9, 0xd), (0x1c, 0x20), (0x85, 0x85), (0xa0, 0xa0), (0x1680, 0x1680), (0x2000, 0x200a),
   (0x2028, 0x2029), (0x202f, 0x202f), (0x205f, 0x205f), (0x3000, 0x3000)]

/-- A white space character. -/
def isBlank (c : Char) : Bool := covers blankRanges c.toNat

/-- The text without the white space in front. -/
def trimLeft (cs : List Char) : List Char := cs.dropWhile isBlank

/-- The text without the white space behind. -/
def trimRight (cs : List Char) : List Char := (cs.reverse.dropWhile isBlank).reverse

/-- The text without the white space on both sides. -/
def trim (cs : List Char) : List Char := trimRight (trimLeft cs)

end Rosette.Text
