/-!
# Lines of a text

Two views of line ends.  Reading a file turns every carriage return, alone or in
front of a line feed, into a line feed.  Showing a text line by line splits it at
every line boundary that Unicode knows.
-/

namespace NescTree.Text

/-- Write every line end as a line feed. -/
def unifyNewlines : List Char → List Char
  | [] => []
  | '\r' :: '\n' :: rest => '\n' :: unifyNewlines rest
  | char :: rest => (if char == '\r' then '\n' else char) :: unifyNewlines rest

/-- The characters that end a line.  A carriage return and a line feed after it
end only one. -/
def isLineBreak (char : Char) : Bool :=
  char == '\n' || char == '\r' || char == '\x0b' || char == '\x0c' ||
    char == '\x1c' || char == '\x1d' || char == '\x1e' || char == '\x85' ||
    char == '\u2028' || char == '\u2029'

/-- Put a character in front of the first line. -/
def prependToFirst (char : Char) : List (List Char) → List (List Char)
  | [] => [[char]]
  | line :: lines => (char :: line) :: lines

/-- The lines of a text, without the characters that end them.  There is no empty
line after the last line break. -/
def splitLines : List Char → List (List Char)
  | [] => []
  | '\r' :: '\n' :: rest => [] :: splitLines rest
  | char :: rest =>
    if isLineBreak char then [] :: splitLines rest
    else prependToFirst char (splitLines rest)

def lines (text : String) : List String :=
  (splitLines text.toList).map String.ofList

def lineFeeds (text : String) : Nat :=
  text.toList.count '\n'

end NescTree.Text
