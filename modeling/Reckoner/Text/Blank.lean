import Reckoner.Text.Range

/-!
# Blanks

Blanks separate tokens and mean nothing else: the controls from tab to carriage return,
the four information separators, the space, and the spaces and line separators of Unicode.
A newline is a blank like the others.
-/

namespace Reckoner.Text

/-- Ranges of blanks. -/
def blankRanges : List (Nat × Nat) :=
  [(0x9, 0xD), (0x1C, 0x20), (0x85, 0x85), (0xA0, 0xA0), (0x1680, 0x1680), (0x2000, 0x200A),
   (0x2028, 0x2029), (0x202F, 0x202F), (0x205F, 0x205F), (0x3000, 0x3000)]

/-- A character that only separates. -/
def isBlank (c : Char) : Bool :=
  covers blankRanges c

/-- The blanks that may surround a written number: all but the information separators. -/
def isMargin (c : Char) : Bool :=
  isBlank c && !covers [(0x1C, 0x1F)] c

end Reckoner.Text
