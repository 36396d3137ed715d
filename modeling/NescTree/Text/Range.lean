/-!
# Character ranges

Character classes of the Unicode standard are given as lists of closed ranges of
code points in increasing order.
-/

namespace NescTree.Text

/-- First and last code point of a run of characters. -/
abbrev Range := Nat × Nat

def Range.contains (range : Range) (char : Char) : Bool :=
  range.1 ≤ char.toNat && char.toNat ≤ range.2

def inRanges (ranges : List Range) (char : Char) : Bool :=
  ranges.any fun range => range.contains char

end NescTree.Text
