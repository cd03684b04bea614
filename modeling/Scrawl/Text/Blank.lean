import Scrawl.Text.Digit

/-!
# Text/Blank — the space around a numeral

Text that is read as a number may have **blanks** on both sides: the ASCII spaces and line
controls, and every separator of the wider character set.  The four information separators
below the space are not among them.
-/

namespace Scrawl.Text

/-- The blanks, as ranges of code points. -/
def blanks : List (Nat × Nat) := [
  (0x9, 0xd), (0x20, 0x20), (0x85, 0x85), (0xa0, 0xa0), (0x1680, 0x1680), (0x2000, 0x200a),
  (0x2028, 0x2029), (0x202f, 0x202f), (0x205f, 0x205f), (0x3000, 0x3000)]

/-- A character that may surround a numeral. -/
def isBlank (c : Char) : Bool := inRanges blanks c.toNat

/-- Text without the blanks at its two ends. -/
def trimBlanks (cs : List Char) : List Char :=
  ((cs.dropWhile isBlank).reverse.dropWhile isBlank).reverse

end Scrawl.Text
