/-!
# Filling lines

A text is broken into lines at blanks, and after a hyphen between two parts of a
word.  Letters are those of names of machines and programs, which are ASCII.
-/

namespace NescTree.Text

def isWordLetter (char : Char) : Bool := char.isAlpha || char == '_'

/-- Letters, digits, and the punctuation that belongs to a word. -/
def isWordPart (char : Char) : Bool :=
  isWordLetter char || char.isDigit || "!\"\x27&.,?".toList.contains char

/-- Whether the characters before a hyphen, in reverse order, allow a break: two
letters, or a short part after another hyphen. -/
def breaksAfter : List Char → Bool
  | last :: '-' :: first :: _ => isWordPart last && isWordLetter first
  | last :: first :: _ => isWordLetter last && isWordLetter first
  | _ => false

/-- Whether the characters after a hyphen allow a break: two letters, possibly with
another hyphen between them. -/
def breaksBefore : List Char → Bool
  | first :: '-' :: second :: _ => isWordLetter first && isWordLetter second
  | first :: second :: _ => isWordLetter first && isWordLetter second
  | _ => false

/-- The parts a word can be broken into.  The word up to here and its last part up to
here are given in reverse order. -/
def wordParts (before part : List Char) : List Char → List (List Char)
  | [] => if part.isEmpty then [] else [part.reverse]
  | char :: rest =>
    if char == '-' && breaksAfter before && breaksBefore rest then
      (char :: part).reverse :: wordParts (char :: before) [] rest
    else wordParts (char :: before) (char :: part) rest

def breakableWords (text : String) : List (List (List Char)) :=
  ((text.splitOn " ").filter fun word => !word.isEmpty).map fun word => wordParts [] [] word.toList

/-- Pieces that may not be pulled apart, with the number of spaces before each. -/
def unbreakable (text : String) : List (Nat × List Char) :=
  (breakableWords text).flatMap fun parts => parts.mapIdx fun index part =>
    (if index = 0 then 1 else 0, part)

/-- Add a piece to the last line, or to a new line if it would grow too wide.  Lines
are in reverse order. -/
def addPiece (width : Nat) (lines : List String) (piece : Nat × List Char) : List String :=
  let part := String.ofList piece.2
  match lines with
  | [] => [part]
  | line :: others =>
    if line.length + piece.1 + part.length ≤ width then
      (line ++ String.ofList (List.replicate piece.1 ' ') ++ part) :: others
    else part :: line :: others

def fill (width : Nat) (text : String) : String :=
  "\n".intercalate (((unbreakable text).foldl (addPiece width) []).reverse)

end NescTree.Text
