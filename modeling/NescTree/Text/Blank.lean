import NescTree.Text.Range

/-!
# Blank characters

White space in the sense of Unicode, together with the four separator controls
from U+001C to U+001F.  The byte order mark U+FEFF is not blank.
-/

namespace NescTree.Text

def blankRanges : List Range :=
  [(0x9, 0xd), (0x1c, 0x20), (0x85, 0x85), (0xa0, 0xa0), (0x1680, 0x1680), (0x2000, 0x200a),
   (0x2028, 0x2029), (0x202f, 0x202f), (0x205f, 0x205f), (0x3000, 0x3000)]

def isBlank (char : Char) : Bool :=
  inRanges blankRanges char

end NescTree.Text
