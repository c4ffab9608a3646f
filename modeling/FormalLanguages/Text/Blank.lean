import FormalLanguages.Text.CodeRanges

/-! # Blank characters

The characters with the Unicode property `White_Space`: tabs, line ends, and spaces of all
widths. -/

namespace FormalLanguages.Text

/-- The ranges of the `White_Space` property. -/
def blankRanges : CodeRanges :=
  [(0x09, 0x0D), (0x20, 0x20), (0x85, 0x85), (0xA0, 0xA0), (0x1680, 0x1680), (0x2000, 0x200A),
   (0x2028, 0x2029), (0x202F, 0x202F), (0x205F, 0x205F), (0x3000, 0x3000)]

/-- Whether a character is blank. -/
def isBlank (c : Char) : Bool := blankRanges.contains c

end FormalLanguages.Text
