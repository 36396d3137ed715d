import Mathlib.Data.Int.Range
import NescTree.Source.Window

/-!
# The window around a message

A message can be printed row by row: each line is looked up by its row, and after the line that
the message is about comes the marker.  No row of the window is outside the lines, whatever the
row of the message is, so the only thing that can stop the printing is a marker that a machine
refuses to build.  Up to there the printed text is the window that is rendered as a whole.
-/

namespace NescTree.Window

section Rows

variable {row current : Int} {count : Nat}

theorem rowsAround_eq_range (row : Int) (count : Nat) :
    rowsAround row count = Int.range (firstRow row) (lastRow row count + 1) := rfl

theorem mem_rowsAround_iff :
    current ∈ rowsAround row count ↔
      max (row - 2) 1 ≤ current ∧ current ≤ min (row + 3) count := by
  rw [rowsAround_eq_range, Int.mem_range_iff, firstRow, lastRow, Int.lt_add_one_iff]

theorem pairwise_rowsAround (row : Int) (count : Nat) :
    (rowsAround row count).Pairwise (· < ·) := by
  rw [rowsAround, List.pairwise_map]
  apply List.pairwise_lt_range.imp
  intro first second hless
  omega

/-- The rows of a window are rows of the lines. -/
theorem inside_of_mem_rowsAround (hmem : current ∈ rowsAround row count) :
    1 ≤ current ∧ current ≤ count := by
  obtain ⟨hfirst, hlast⟩ := mem_rowsAround_iff.1 hmem
  omega

/-- The row of a message is in its window if it is a row of the lines at all. -/
theorem self_mem_rowsAround_iff : row ∈ rowsAround row count ↔ 1 ≤ row ∧ row ≤ count := by
  rw [mem_rowsAround_iff]
  omega

/-- Around a row of the lines there are the rows before it and the rows after it. -/
theorem exists_rowsAround_eq (hrow : 1 ≤ row ∧ row ≤ count) :
    ∃ above below, rowsAround row count = above ++ row :: below ∧ row ∉ above ∧ row ∉ below := by
  obtain ⟨above, below, hrows⟩ := List.append_of_mem (self_mem_rowsAround_iff.2 hrow)
  have hpairwise := pairwise_rowsAround row count
  rw [hrows, List.pairwise_append, List.pairwise_cons] at hpairwise
  obtain ⟨-, ⟨hbelow, -⟩, habove⟩ := hpairwise
  refine ⟨above, below, hrows, ?_, ?_⟩
  · intro hmem
    exact lt_irrefl row (habove row hmem row List.mem_cons_self)
  · intro hmem
    exact lt_irrefl row (hbelow row hmem)

end Rows

section Lines

variable {lines : List String} {row col length current : Int} {message : String}

def rowText (lines : List String) (row : Int) : String :=
  plain (lines.getD (row - 1).toNat "", row.toNat)

def rowsText (lines : List String) (rows : List Int) : String :=
  String.join (rows.map (rowText lines))

theorem lineAt?_of_inside (hinside : 1 ≤ current ∧ current ≤ lines.length) :
    lineAt? lines current = some (lines.getD (current - 1).toNat "") := by
  have hless : (current - 1).toNat < lines.length := by omega
  rw [lineAt?, if_pos hinside.1, List.getD, List.getElem?_eq_getElem hless, Option.getD_some]

/-- A line that the message is not about is printed without a marker. -/
theorem printRow_of_ne (hinside : 1 ≤ current ∧ current ≤ lines.length) (hne : current ≠ row) :
    printRow lines row col length message current = ⟨rowText lines current, none⟩ := by
  simp only [printRow, lineAt?_of_inside hinside, if_neg hne]
  rfl

theorem printRow_self (hinside : 1 ≤ row ∧ row ≤ lines.length) :
    printRow lines row col length message row =
      match markerFailure? col length with
      | some failure => ⟨rowText lines row, some (.noMarker failure)⟩
      | none => ⟨rowText lines row ++ marker col length message, none⟩ := by
  simp only [printRow, lineAt?_of_inside hinside]
  rfl

/-- Rows that the message is not about are printed one after the other, before what follows. -/
theorem printRows_append_of_notMem {rows : List Int} (hrow : row ∉ rows)
    (hinside : ∀ current ∈ rows, 1 ≤ current ∧ current ≤ lines.length) (rest : List Int) :
    printRows lines row col length message (rows ++ rest) =
      Printout.andThen ⟨rowsText lines rows, none⟩
        (printRows lines row col length message rest) := by
  induction rows with
  | nil => simp [rowsText, Printout.andThen]
  | cons current rows ih =>
    obtain ⟨hcurrent, hrows⟩ := List.forall_mem_cons.1 hinside
    rw [List.mem_cons, not_or] at hrow
    rw [List.cons_append, printRows, printRow_of_ne hcurrent (Ne.symm hrow.1), ih hrow.2 hrows]
    simp [rowsText, Printout.andThen, String.append_assoc]

theorem printRows_of_notMem {rows : List Int} (hrow : row ∉ rows)
    (hinside : ∀ current ∈ rows, 1 ≤ current ∧ current ≤ lines.length) :
    printRows lines row col length message rows = ⟨rowsText lines rows, none⟩ := by
  rw [← List.append_nil rows, printRows_append_of_notMem hrow hinside []]
  simp [Printout.andThen, printRows]

/-- The lines that are shown are those at the rows of the window. -/
theorem shown_eq (lines : List String) (row : Int) :
    shown lines row = (rowsAround row lines.length).map fun current =>
      (lines.getD (current - 1).toNat "", current.toNat) := by
  have hfirst : 1 ≤ firstRow row := le_max_right _ _
  have hlast : lastRow row lines.length ≤ lines.length := min_le_right _ _
  apply List.ext_getElem?
  intro index
  rw [shown, rowsAround, List.map_map, List.getElem?_map]
  by_cases hindex : index < (lastRow row lines.length - firstRow row + 1).toNat
  · have hline : (firstRow row - 1).toNat + index < lines.length := by omega
    have hcurrent : (firstRow row + index - 1).toNat = (firstRow row - 1).toNat + index := by omega
    have hnumber : (firstRow row + index).toNat = 1 + ((firstRow row - 1).toNat + index) := by omega
    rw [List.getElem?_take_of_lt hindex, List.getElem?_drop, List.getElem?_zipIdx,
      List.getElem?_range (by omega), List.getElem?_eq_getElem hline]
    simp only [Option.map_some, Function.comp_apply, hcurrent, hnumber]
    rw [List.getD, List.getElem?_eq_getElem hline, Option.getD_some]
  · rw [List.getElem?_eq_none, List.getElem?_eq_none, Option.map_none]
    · rw [List.length_range]
      omega
    · rw [List.length_take]
      omega

/-- A window is the lines at its rows, with the marker below the line the message is about. -/
theorem render_eq (lines : List String) (row col length : Int) (message : String) :
    render lines row col length message =
      String.join ((rowsAround row lines.length).map fun current =>
        rowText lines current ++ if current = row then marker col length message else "") := by
  rw [render, shown_eq, List.map_map]
  apply congrArg String.join
  apply List.map_congr_left
  intro current hmem
  have hinside := inside_of_mem_rowsAround hmem
  have hnumber : (current.toNat : Int) = current := by omega
  simp only [Function.comp_apply, numbered, hnumber]
  rfl

/-- Rows that the message is not about get no marker. -/
theorem join_map_of_notMem {rows : List Int} (hrow : row ∉ rows) :
    String.join (rows.map fun current =>
        rowText lines current ++ if current = row then marker col length message else "") =
      rowsText lines rows := by
  apply congrArg String.join
  apply List.map_congr_left
  intro current hmem
  have hne : current ≠ row := by
    rintro rfl
    exact hrow hmem
  rw [if_neg hne, String.append_empty]

end Lines

section Window

variable {lines : List String} {row : Int} (col length : Int) (message : String)

/-- Without the line that a message is about the window holds lines only. -/
theorem render_of_outside (houtside : ¬ (1 ≤ row ∧ row ≤ lines.length)) :
    render lines row col length message = rowsText lines (rowsAround row lines.length) := by
  rw [render_eq, join_map_of_notMem (mt self_mem_rowsAround_iff.1 houtside)]

/-- With the line that a message is about the marker comes directly after it. -/
theorem render_of_inside {above below : List Int}
    (hrows : rowsAround row lines.length = above ++ row :: below)
    (habove : row ∉ above) (hbelow : row ∉ below) :
    render lines row col length message =
      rowsText lines above ++ rowText lines row ++
        (marker col length message ++ rowsText lines below) := by
  rw [render_eq, hrows, List.map_append, List.map_cons, String.join_append, String.join_cons,
    join_map_of_notMem habove, join_map_of_notMem hbelow, if_pos rfl]
  simp only [String.append_assoc]

theorem print_of_outside (houtside : ¬ (1 ≤ row ∧ row ≤ lines.length)) :
    print lines row col length message = ⟨render lines row col length message, none⟩ := by
  have hrow : row ∉ rowsAround row lines.length := mt self_mem_rowsAround_iff.1 houtside
  rw [print, printRows_of_notMem hrow fun _ => inside_of_mem_rowsAround,
    render_of_outside col length message houtside]

/-- A marker that cannot be built stops the printing after the line it belongs to. -/
theorem print_of_inside {above below : List Int}
    (hrows : rowsAround row lines.length = above ++ row :: below)
    (habove : row ∉ above) (hbelow : row ∉ below) :
    print lines row col length message =
      match markerFailure? col length with
      | some failure => ⟨rowsText lines above ++ rowText lines row, some (.noMarker failure)⟩
      | none => ⟨render lines row col length message, none⟩ := by
  have hinside : ∀ current ∈ above ++ row :: below, 1 ≤ current ∧ current ≤ lines.length := by
    rw [← hrows]
    exact fun _ => inside_of_mem_rowsAround
  rw [List.forall_mem_append, List.forall_mem_cons] at hinside
  rw [print, hrows, printRows_append_of_notMem habove hinside.1, printRows,
    printRow_self hinside.2.1, printRows_of_notMem hbelow hinside.2.2,
    render_of_inside col length message hrows habove hbelow]
  cases markerFailure? col length with
  | some failure => simp [Printout.andThen]
  | none => simp [Printout.andThen, String.append_assoc]

/-- What is printed to the end is the whole window. -/
theorem text_print_of_stop? (hprinted : (print lines row col length message).stop? = none) :
    (print lines row col length message).text = render lines row col length message := by
  by_cases hrow : 1 ≤ row ∧ row ≤ lines.length
  · obtain ⟨above, below, hrows, habove, hbelow⟩ := exists_rowsAround_eq hrow
    rw [print_of_inside col length message hrows habove hbelow] at hprinted ⊢
    cases hfailure : markerFailure? col length with
    | some failure => simp [hfailure] at hprinted
    | none => rfl
  · rw [print_of_outside col length message hrow]

/-- A marker can be built if its counts fit into words. -/
theorem markerFailure?_eq_none_iff (col length : Int) :
    markerFailure? col length = none ↔
      max length 1 < Size.wordLimit ∧ -Size.wordLimit ≤ col - 1 ∧ col - 1 < Size.wordLimit := by
  rw [markerFailure?, Option.or_eq_none_iff, Size.repetition?_eq_none_iff,
    Size.repetition?_eq_none_iff]
  have hwidth : -Size.wordLimit ≤ max length 1 := by
    rw [Size.wordLimit]
    omega
  simp [hwidth]

end Window

/-- For every row, column and length, the rows of the window are looked up in order and each
once, no row is outside the lines, and the marker with its message comes directly after the line
that the message is about, if there is such a line.  The printing stops before the end only where
the marker is too large to be built. -/
theorem window_printed_exactly (lines : List String) (row col length : Int) (message : String) :
    let rows := rowsAround row lines.length
    let printed := print lines row col length message
    rows.Pairwise (· < ·) ∧
    (∀ current, current ∈ rows ↔
      max (row - 2) 1 ≤ current ∧ current ≤ min (row + 3) lines.length) ∧
    (∀ current, printed.stop? ≠ some (.noLine current)) ∧
    (printed.stop? = none ↔ (1 ≤ row ∧ row ≤ lines.length → max length 1 < Size.wordLimit ∧
      -Size.wordLimit ≤ col - 1 ∧ col - 1 < Size.wordLimit)) ∧
    (printed.stop? = none → printed.text = render lines row col length message) ∧
    (¬ (1 ≤ row ∧ row ≤ lines.length) → printed.text = rowsText lines rows) ∧
    (1 ≤ row ∧ row ≤ lines.length → ∃ above below, rows = above ++ row :: below ∧
      printed.text = rowsText lines above ++ rowText lines row ++
        if printed.stop? = none then marker col length message ++ rowsText lines below
        else "") := by
  intro rows printed
  refine ⟨pairwise_rowsAround row lines.length, fun _ => mem_rowsAround_iff, ?_⟩
  by_cases hrow : 1 ≤ row ∧ row ≤ lines.length
  · obtain ⟨above, below, hrows, habove, hbelow⟩ := exists_rowsAround_eq hrow
    have hprint := print_of_inside col length message hrows habove hbelow
    have hsize := markerFailure?_eq_none_iff col length
    cases hfailure : markerFailure? col length with
    | some failure =>
      have hprinted : printed =
          ⟨rowsText lines above ++ rowText lines row, some (.noMarker failure)⟩ := by
        simpa [hfailure] using hprint
      rw [hfailure] at hsize
      rw [hprinted]
      refine ⟨by simp, ?_, nofun, fun hout => absurd hrow hout,
        fun _ => ⟨above, below, hrows, ?_⟩⟩
      · simpa [hrow] using hsize
      · simp
    | none =>
      have hprinted : printed = ⟨render lines row col length message, none⟩ := by
        simpa [hfailure] using hprint
      rw [hfailure] at hsize
      rw [hprinted]
      refine ⟨by simp, ?_, fun _ => rfl, fun hout => absurd hrow hout,
        fun _ => ⟨above, below, hrows, ?_⟩⟩
      · simpa [hrow] using hsize
      · simpa using render_of_inside col length message hrows habove hbelow
  · have hprinted : printed = ⟨render lines row col length message, none⟩ :=
      print_of_outside col length message hrow
    rw [hprinted]
    exact ⟨by simp, by simp [hrow], fun _ => rfl,
      fun _ => render_of_outside col length message hrow, fun hin => absurd hin hrow⟩

example : render ["one", "two"] 2 2 2 "odd" =
    "    1 :one\n    2 :two\n      : ^^\n      :  |\n      :  +---- odd\n" := by
  decide +kernel

/-- A column too far to the left for a machine word: the line is printed, and neither the marker
nor the message. -/
theorem marker_refused_far_left :
    let printed := print ["a"] 1 (-0x8000000000000000) 1 "m"
    1 ≤ ["a"].length ∧ printed = ⟨"    1 :a\n", some (.noMarker .noWord)⟩ ∧
      '^' ∉ printed.text.toList ∧ ¬ "m".toList <:+: printed.text.toList := by
  have hfailure : markerFailure? (-0x8000000000000000) 1 = some .noWord := rfl
  have hline : plain ("a", 1) = "    1 :a\n" := by decide +kernel
  have hprinted : print ["a"] 1 (-0x8000000000000000) 1 "m" =
      ⟨"    1 :a\n", some (.noMarker .noWord)⟩ := by
    rw [print, show rowsAround 1 ["a"].length = [1] from rfl, printRows, printRow_self (by decide),
      hfailure, ← hline]
    rfl
  intro printed
  rw [show printed = _ from hprinted]
  exact ⟨le_refl 1, rfl, by decide +kernel, by decide +kernel⟩

end NescTree.Window
