import NescTree.Notation.Word

/-!
# Pieces of a text

Tree notation is cut into pieces without losing a character: blanks, comments,
parentheses, words and strings.  Only the last piece can be a string that is not
closed.
-/

namespace NescTree.Notation

inductive Piece where
  | gap (char : Char)
  | comment (body : List Char)
  | opening
  | closing
  | word (chars : List Char)
  /-- A string, given by what follows its opening quote. -/
  | string (body : List Char)
  /-- What follows a quote that is never closed. -/
  | unclosed (body : List Char)
  deriving DecidableEq, Repr

def Piece.chars : Piece → List Char
  | .gap char => [char]
  | .comment body => ';' :: body
  | .opening => ['(']
  | .closing => [')']
  | .word chars => chars
  | .string body => '"' :: body
  | .unclosed body => '"' :: body

/-- Split a text after the first line end. -/
def cutComment : List Char → List Char × List Char
  | [] => ([], [])
  | char :: rest =>
    if char == '\n' || char == '\r' then ([char], rest)
    else (char :: (cutComment rest).1, (cutComment rest).2)

/-- Split a text after the quote that closes a string. -/
def cutString : List Char → Option (List Char × List Char)
  | [] => none
  | '\\' :: [] => none
  | '\\' :: char :: rest => (cutString rest).map fun cut => ('\\' :: char :: cut.1, cut.2)
  | char :: rest =>
    if char == '"' then some ([char], rest)
    else (cutString rest).map fun cut => (char :: cut.1, cut.2)

/-- The first piece of a text, and what follows it. -/
def cut (first : Char) (rest : List Char) : Piece × List Char :=
  if first == '(' then (.opening, rest)
  else if first == ')' then (.closing, rest)
  else if first == ';' then (.comment (cutComment rest).1, (cutComment rest).2)
  else if first == '"' then
    match cutString rest with
    | some (body, remaining) => (.string body, remaining)
    | none => (.unclosed rest, [])
  else if isGap first then (.gap first, rest)
  else
    (.word (first :: rest.takeWhile fun char => !isStop char),
      rest.dropWhile fun char => !isStop char)

theorem cutComment_append (text : List Char) :
    (cutComment text).1 ++ (cutComment text).2 = text := by
  induction text with
  | nil => rfl
  | cons char rest ih =>
    by_cases hend : (char == '\n' || char == '\r') = true <;> simp [cutComment, hend, ih]

theorem cutString_append {text body remaining : List Char}
    (hcut : cutString text = some (body, remaining)) : body ++ remaining = text := by
  fun_induction cutString text generalizing body with
  | case1 => simp at hcut
  | case2 => simp at hcut
  | case3 char rest ih =>
    obtain ⟨inner, hinner, heq⟩ := Option.map_eq_some_iff.1 hcut
    cases heq
    simp [ih hinner]
  | case4 char rest _ _ hquote =>
    cases hcut
    rfl
  | case5 char rest _ _ hquote ih =>
    obtain ⟨inner, hinner, heq⟩ := Option.map_eq_some_iff.1 hcut
    cases heq
    simp [ih hinner]

/-- Cutting off a piece loses no character. -/
theorem cut_append (first : Char) (rest : List Char) :
    (cut first rest).1.chars ++ (cut first rest).2 = first :: rest := by
  unfold cut
  split
  · simp_all [Piece.chars]
  split
  · simp_all [Piece.chars]
  split
  · simp_all [Piece.chars, cutComment_append]
  split
  · split
    · rename_i hcut
      simp_all [Piece.chars, cutString_append hcut]
    · simp_all [Piece.chars]
  split
  · simp [Piece.chars]
  · simp [Piece.chars]

theorem Piece.chars_cut_ne_nil (first : Char) (rest : List Char) :
    (cut first rest).1.chars ≠ [] := by
  unfold cut
  repeat' split
  all_goals simp [Piece.chars]

theorem length_cut_lt (first : Char) (rest : List Char) :
    (cut first rest).2.length < (first :: rest).length := by
  have hlength := congrArg List.length (cut_append first rest)
  have hpositive := List.length_pos_iff.2 (Piece.chars_cut_ne_nil first rest)
  simp only [List.length_append] at hlength
  omega

def pieces : List Char → List Piece
  | [] => []
  | first :: rest => (cut first rest).1 :: pieces (cut first rest).2
termination_by text => text.length
decreasing_by exact length_cut_lt first rest

/-- The pieces of a text are the text. -/
theorem flatMap_chars_pieces (text : List Char) :
    (pieces text).flatMap Piece.chars = text := by
  fun_induction pieces text with
  | case1 => rfl
  | case2 first rest ih => simp [ih, cut_append]

end NescTree.Notation
