import OrsonHighlight.Unicode.Ranges

/-!
White space of every script, in two extents: around a text, where the information separators
U+001C to U+001F count, and around a numeral, where they do not.
-/

set_option autoImplicit false

namespace OrsonHighlight.Unicode

def blankRanges : Ranges :=
  [(0x9, 0xD), (0x1C, 0x20), (0x85, 0x85), (0xA0, 0xA0), (0x1680, 0x1680), (0x2000, 0x200A),
  (0x2028, 0x2029), (0x202F, 0x202F), (0x205F, 0x205F), (0x3000, 0x3000)]

def isBlank (c : Char) : Bool := blankRanges.holds c.toNat

def isNumeralBlank (c : Char) : Bool := isBlank c && !(0x1C ≤ c.toNat && c.toNat ≤ 0x1F)

end OrsonHighlight.Unicode
