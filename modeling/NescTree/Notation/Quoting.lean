import NescTree.Fault

/-!
# Quoted strings

A string of tree notation stands between double quotes.  A backslash takes away
the meaning of the character after it, so quotes and backslashes can be part of
the text.
-/

namespace NescTree.Notation

/-- A text with a backslash in front of each quote and each backslash. -/
def escapeInner : List Char → List Char
  | [] => []
  | char :: rest =>
    if char == '\\' || char == '"' then '\\' :: char :: escapeInner rest
    else char :: escapeInner rest

def escape (text : String) : String :=
  String.ofList ('"' :: escapeInner text.toList ++ ['"'])

/-- A text without the backslashes that take away meaning.  The last character
cannot be one. -/
def unescapeInner : List Char → Except Fault (List Char)
  | [] => .ok []
  | ['\\'] => .error .exhausted
  | '\\' :: char :: rest => (unescapeInner rest).map (char :: ·)
  | char :: rest => (unescapeInner rest).map (char :: ·)

def withoutEnds (text : List Char) : List Char :=
  (text.drop 1).dropLast

def unescape (quoted : String) : Except Fault String :=
  (unescapeInner (withoutEnds quoted.toList)).map String.ofList

/-- Whether the inside of a string ends where the string does and stays on one
line, unless a line end has a backslash in front. -/
def isPlainInner : List Char → Bool
  | [] => true
  | ['\\'] => false
  | '\\' :: _ :: rest => isPlainInner rest
  | char :: rest => char != '"' && char != '\r' && char != '\n' && isPlainInner rest

/-- Whether a text is a quoted string that can be written as it is. -/
def isRawString (text : List Char) : Bool :=
  2 ≤ text.length && text.head? == some '"' && text.getLast? == some '"' &&
    isPlainInner (withoutEnds text)

end NescTree.Notation
