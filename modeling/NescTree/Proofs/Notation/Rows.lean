import NescTree.Notation.Token

/-!
# Rows and columns

A text is split into rows after each line feed.  Counting rows and columns along the
text, as the positions of tokens do, gives the place of a character in this split:
the row it is on, and how many characters of the row stand before it.
-/

namespace NescTree.Notation

/-- The rows of a text, which end after each line feed. -/
def rows : List Char → List (List Char)
  | [] => []
  | char :: rest =>
    if char = '\n' then [char] :: rows rest
    else
      match rows rest with
      | [] => [[char]]
      | row :: more => (char :: row) :: more

/-- The text from a place on, where rows and columns count from one. -/
def sourceFrom (text : List Char) (row col : Nat) : List Char :=
  ((rows text).drop (row - 1)).flatten.drop (col - 1)

def offset (text : List Char) (span : Span) : Nat :=
  ((rows text).take (span.row - 1)).flatten.length + (span.col - 1)

theorem flatten_rows (text : List Char) : (rows text).flatten = text := by
  induction text with
  | nil => rfl
  | cons char rest ih =>
    rw [rows]
    by_cases hfeed : char = '\n'
    · simp [hfeed, ih]
    · cases hrows : rows rest with
      | nil => simpa [hfeed, hrows] using ih
      | cons row more => simpa [hfeed, hrows] using ih

theorem rows_cons_of_ne {char : Char} (hfeed : char ≠ '\n') {rest row : List Char}
    {more : List (List Char)} (hrows : rows rest = row :: more) :
    rows (char :: rest) = (char :: row) :: more := by
  simp [rows, hfeed, hrows]

/-- The first row of a text holds its first character. -/
theorem exists_rows_cons (char : Char) (rest : List Char) :
    ∃ row more, rows (char :: rest) = (char :: row) :: more := by
  by_cases hfeed : char = '\n'
  · exact ⟨[], rows rest, by simp [rows, hfeed]⟩
  · cases hrows : rows rest with
    | nil => exact ⟨[], [], by simp [rows, hfeed, hrows]⟩
    | cons row more => exact ⟨row, more, rows_cons_of_ne hfeed hrows⟩

theorem ne_nil_of_rows {text row : List Char} {more : List (List Char)}
    (hrows : rows text = row :: more) : row ≠ [] := by
  cases text with
  | nil => simp [rows] at hrows
  | cons char rest =>
    obtain ⟨tail, others, hcons⟩ := exists_rows_cons char rest
    rw [hcons] at hrows
    exact fun hempty => by simp [hempty] at hrows

/-- The first row of a text has a line feed at its end only, and it has one there if the
text goes on. -/
theorem exists_below_of_rows {text row : List Char} {more : List (List Char)}
    (hrows : rows text = row :: more) :
    ∃ below, text = row ++ below ∧ rows below = more ∧
      ((below = [] ∧ '\n' ∉ row) ∨ ∃ inner, row = inner ++ ['\n'] ∧ '\n' ∉ inner) := by
  induction text generalizing row more with
  | nil => simp [rows] at hrows
  | cons char rest ih =>
    by_cases hfeed : char = '\n'
    · obtain ⟨rfl, rfl⟩ : [char] = row ∧ rows rest = more := by simpa [rows, hfeed] using hrows
      exact ⟨rest, rfl, rfl, .inr ⟨[], by simp [hfeed], by simp⟩⟩
    · cases hrest : rows rest with
      | nil =>
        obtain rfl : rest = [] := by rw [← flatten_rows rest, hrest, List.flatten_nil]
        obtain ⟨rfl, rfl⟩ : [char] = row ∧ [] = more := by simpa [rows, hfeed] using hrows
        exact ⟨[], rfl, rfl, .inl ⟨rfl, by simpa using Ne.symm hfeed⟩⟩
      | cons first others =>
        obtain ⟨rfl, rfl⟩ : char :: first = row ∧ others = more := by
          simpa [rows_cons_of_ne hfeed hrest] using hrows
        obtain ⟨below, rfl, hbelow, hends⟩ := ih hrest
        refine ⟨below, rfl, hbelow, ?_⟩
        obtain ⟨hempty, hfirst⟩ | ⟨inner, rfl, hinner⟩ := hends
        · exact .inl ⟨hempty, by simp [Ne.symm hfeed, hfirst]⟩
        · exact .inr ⟨char :: inner, rfl, by simp [Ne.symm hfeed, hinner]⟩

theorem sourceFrom_eq_drop_offset (text : List Char) (span : Span) :
    sourceFrom text span.row span.col = text.drop (offset text span) := by
  have hsplit : text = ((rows text).take (span.row - 1)).flatten ++
      ((rows text).drop (span.row - 1)).flatten := by
    rw [← List.flatten_append, List.take_append_drop, flatten_rows]
  have hdrop := congrArg (List.drop (offset text span)) hsplit
  rw [hdrop, sourceFrom, offset, List.drop_length_add_append]

theorem Position.after_append (position : Position) (first second : List Char) :
    position.after (first ++ second) = (position.after first).after second := by
  rw [Position.after, Position.after, Position.after, List.foldl_append]

theorem Position.after_cons (position : Position) (char : Char) (chars : List Char) :
    position.after (char :: chars) = (position.step char).after chars := rfl

/-- Every line feed takes a place one row further down. -/
theorem Position.row_after (position : Position) (chars : List Char) :
    (position.after chars).row = position.row + chars.count '\n' := by
  induction chars generalizing position with
  | nil => rfl
  | cons char chars ih =>
    rw [after_cons, ih]
    by_cases hfeed : char = '\n'
    · simp only [step, hfeed, beq_self_eq_true, if_true, List.count_cons_self]
      omega
    · simp [step, hfeed]

/-- Within a row only the column changes. -/
theorem Position.after_of_lineFeed_notMem (position : Position) {chars : List Char}
    (hchars : '\n' ∉ chars) :
    position.after chars = ⟨position.row, position.col + chars.length⟩ := by
  induction chars generalizing position with
  | nil => rfl
  | cons char chars ih =>
    obtain ⟨hchar, hrest⟩ : '\n' ≠ char ∧ '\n' ∉ chars := by simpa using hchars
    have hstep : position.step char = ⟨position.row, position.col + 1⟩ := by
      simp [step, Ne.symm hchar]
    rw [after_cons, hstep, ih _ hrest, List.length_cons, Nat.add_assoc, Nat.add_comm 1]

/-- Counting along a text that goes on leads to a row of the whole text and to a column
within it. -/
theorem Position.after_eq (position : Position) (before : List Char) {rest : List Char}
    (hrest : rest ≠ []) :
    ∃ index column row, (rows (before ++ rest))[index]? = some row ∧ column < row.length ∧
      ((rows (before ++ rest)).take index).flatten.length + column = before.length ∧
      position.after before =
        ⟨position.row + index, (if index = 0 then position.col else 1) + column⟩ := by
  induction before generalizing position with
  | nil =>
    obtain ⟨char, rest, rfl⟩ := List.exists_cons_of_ne_nil hrest
    obtain ⟨row, more, hrows⟩ := exists_rows_cons char rest
    exact ⟨0, 0, char :: row, by simp [hrows], by simp, rfl, rfl⟩
  | cons char before ih =>
    have hstep : position.after (char :: before) = (position.step char).after before := rfl
    obtain ⟨index, column, row, hrow, hcolumn, hlength, hafter⟩ := ih (position.step char)
    rw [hstep, hafter]
    by_cases hfeed : char = '\n'
    · have hrows : rows (char :: before ++ rest) = [char] :: rows (before ++ rest) := by
        simp [rows, hfeed]
      have hposition : position.step char = ⟨position.row + 1, 1⟩ := by
        simp [Position.step, hfeed]
      rw [hrows, hposition]
      refine ⟨index + 1, column, row, by simpa using hrow, hcolumn, ?_, ?_⟩
      · simp only [List.take_succ_cons, List.flatten_cons, List.length_append,
          List.length_cons, List.length_nil]
        omega
      · simp only [ite_self, Nat.add_eq_zero_iff, Nat.succ_ne_self, and_false, if_false,
          Position.mk.injEq, and_true]
        omega
    · obtain ⟨first, more, hrest⟩ : ∃ first more, rows (before ++ rest) = first :: more := by
        cases hrows : rows (before ++ rest) with
        | nil => simp [hrows] at hrow
        | cons first more => exact ⟨first, more, rfl⟩
      have hrows : rows (char :: before ++ rest) = (char :: first) :: more :=
        rows_cons_of_ne hfeed hrest
      have hposition : position.step char = ⟨position.row, position.col + 1⟩ := by
        simp [Position.step, hfeed]
      rw [hposition]
      rw [hrest] at hrow hlength
      rw [hrows]
      cases index with
      | zero =>
        obtain rfl : first = row := by simpa using hrow
        refine ⟨0, column + 1, char :: first, rfl, ?_, ?_, ?_⟩
        · simpa using hcolumn
        · simpa using hlength
        · simp only [if_true, Nat.add_zero, Position.mk.injEq, true_and]
          omega
      | succ index =>
        refine ⟨index + 1, column, row, by simpa using hrow, hcolumn, ?_, by simp⟩
        simp only [List.take_succ_cons, List.flatten_cons, List.length_append,
          List.length_cons] at hlength ⊢
        omega

end NescTree.Notation
