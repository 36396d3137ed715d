import NescTree.Fault
import NescTree.Text.Digit

/-!
# Bare words

Words of tree notation run up to the next blank, parenthesis, comment or string.
A word that names no kind stands for a constant or an identifier, which its first
characters tell apart.
-/

namespace NescTree.Notation

/-- The characters that separate tokens and are ignored. -/
def isGap (char : Char) : Bool :=
  char == ' ' || char == '\t' || char == '\r' || char == '\n'

def isStop (char : Char) : Bool :=
  char == '(' || char == ')' || char == ';' || char == '"' || isGap char

def isBareWord (text : List Char) : Bool :=
  !text.isEmpty && text.all fun char => !isStop char

/-- Whether a word is a number or a character literal: it starts with a digit, an
apostrophe, or a point and a digit. -/
def looksConstant : List Char → Except Fault Bool
  | [] => .error .emptyWord
  | '.' :: second :: _ => .ok (Text.isDigit second)
  | first :: _ => .ok (Text.isDigit first || first == '\x27')

end NescTree.Notation
