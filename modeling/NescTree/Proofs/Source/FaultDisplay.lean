import NescTree.Proofs.Notation.SyntaxFaults
import NescTree.Proofs.Source.MessageWindow
import NescTree.Proofs.Source.TokenLines

/-!
# Faults as they are shown

A fault in a text is shown below the line of its row, with a marker and its message.  There
is such a line for the row of every token.  Only the end of a text can be on a row without
a line, since no line follows a line feed at the very end: then the lines above are shown,
and neither the marker nor the message.
-/

namespace NescTree

namespace Window

variable {lines : List String} {row col length : Int} {message : String}

/-- With the line of its row a message is shown below it. -/
theorem exists_render_eq {line : String} {row : Nat} (hrow : 0 < row)
    (hline : lines[row - 1]? = some line) :
    ∃ above below, render lines row col length message =
      above ++ (plain (line, row) ++ marker col length message) ++ below := by
  obtain ⟨hless, -⟩ := List.getElem?_eq_some_iff.1 hline
  have hinside : 1 ≤ (row : Int) ∧ (row : Int) ≤ lines.length := by omega
  have hindex : ((row : Int) - 1).toNat = row - 1 := by omega
  have htext : rowText lines row = plain (line, row) := by
    rw [rowText, hindex, List.getD, hline, Option.getD_some, Int.toNat_natCast]
  obtain ⟨above, below, hrows, habove, hbelow⟩ := exists_rowsAround_eq hinside
  refine ⟨rowsText lines above, rowsText lines below, ?_⟩
  rw [render_of_inside col length message hrows habove hbelow, htext]
  simp only [String.append_assoc]

/-- Without the line of its row a message is not shown. -/
theorem render_of_length_lt (hrow : (lines.length : Int) < row) :
    render lines row col length message = String.join ((shown lines row).map plain) := by
  rw [render_of_outside col length message (by omega), shown_eq, List.map_map]
  rfl

def caretLine (blanks carets : Nat) : String :=
  "      :" ++ Text.spaces blanks ++ String.ofList (List.replicate carets '^')

/-- Whether a text holds a message and, on a line of its own, carets. -/
structure Marks (shown message : String) : Prop where
  holds_message : message.toList <:+: shown.toList
  holds_carets : ∃ blanks carets, 0 < carets ∧
    ("\n" ++ caretLine blanks carets ++ "\n").toList <:+: shown.toList

/-- A marker starts with carets, and the message stands at its end. -/
theorem exists_marker_eq (col length : Int) (message : String) :
    ∃ stem, marker col length message =
      caretLine (col - 1).toNat (max length 1).toNat ++ "\n" ++ stem ++ message ++ "\n" := by
  let margin := "      :" ++ Text.spaces (col - 1).toNat ++ Text.spaces ((max length 1).toNat / 2)
  refine ⟨margin ++ "|\n" ++ margin ++ "+---- ", ?_⟩
  delta marker caretLine
  simp only [margin, String.append_assoc]

/-- Below a line the marker stands on a line of its own, with the message after it. -/
theorem marks_plain_marker (above below : String) (line : String × Nat) (col length : Int)
    (message : String) :
    Marks (above ++ (plain line ++ marker col length message) ++ below) message := by
  obtain ⟨stem, hmarker⟩ := exists_marker_eq col length message
  let carets := caretLine (col - 1).toNat (max length 1).toNat
  refine ⟨⟨(above ++ plain line ++ carets ++ "\n" ++ stem).toList, ("\n" ++ below).toList, ?_⟩,
    (col - 1).toNat, (max length 1).toNat, by omega,
    (above ++ Text.padLeft 5 ' ' (toString line.2) ++ " :" ++ line.1).toList,
    (stem ++ message ++ "\n" ++ below).toList, ?_⟩
  · simp [hmarker, carets]
  · simp [hmarker, plain]

end Window

namespace Notation

/-- Whether a place is the end of a text that ends with a line feed, where lines are the same
as rows. -/
def IsPastLines (text : String) (span : Span) : Prop :=
  span = endSpan text.toList ∧ text.toList.getLast? = some '\n' ∧
    Text.strayBreaks text.toList = 0

/-- The row of every token has a line. -/
theorem row_of_mem_tokenPlaces {text : String} {span : Span}
    (hspan : span ∈ tokenPlaces text.toList) :
    0 < span.row ∧ (span.row ≤ (Text.lines text).length ∨ span = endSpan text.toList) := by
  obtain htoken | hspan := List.mem_append.1 hspan
  · obtain ⟨token, hmem, rfl⟩ := List.mem_map.1 htoken
    obtain ⟨before, type, chars, rest, rfl, hchars, htext⟩ := exists_tokenAfter_of_mem hmem
    have hless := Text.count_lineFeed_lt_length_splitLines before
      (List.append_ne_nil_of_left_ne_nil hchars rest)
    rw [← htext] at hless
    have hrow : (tokenAfter before type chars).span.row = 1 + before.count '\n' :=
      Position.row_after Position.start before
    rw [hrow, Text.lines, List.length_map]
    omega
  · obtain rfl : span = endSpan text.toList := by simpa using hspan
    exact ⟨Nat.succ_pos _, .inr rfl⟩

/-- Only the end of a text can be on a row that has no line. -/
theorem length_lines_lt_row_iff {text : String} {span : Span} (htext : text ≠ "")
    (hspan : span ∈ tokenPlaces text.toList) :
    (Text.lines text).length < span.row ↔ IsPastLines text span := by
  have hend : (Text.lines text).length < (endSpan text.toList).row ↔
      text.toList.getLast? = some '\n' ∧ Text.strayBreaks text.toList = 0 := by
    rw [Text.lines, List.length_map, endSpan, Nat.lt_succ_iff,
      Text.length_splitLines_le_count_iff (by simpa using htext)]
  constructor
  · intro hless
    obtain hle | rfl := (row_of_mem_tokenPlaces hspan).2
    · omega
    · exact ⟨rfl, hend.1 hless⟩
  · rintro ⟨rfl, hpast⟩
    exact hend.2 hpast

/-- A fault that is printed to the end is printed as it is displayed. -/
theorem text_print_eq_display {store : Store} {fault : Fault}
    (hprinted : (fault.print store).stop? = none) :
    (fault.print store).text = fault.display store := by
  rw [Fault.print] at hprinted ⊢
  rw [Fault.display]
  cases hsetting : fault.setting? store with
  | none => rfl
  | some setting =>
    obtain ⟨location, lines⟩ := setting
    simp only [hsetting, Location.message, Window.Printout.andThen] at hprinted ⊢
    rw [Window.text_print_of_stop? _ _ _ hprinted]

/-- The name of a source above the lines that are shown of it. -/
def sourceHeading (name : Option String) : String :=
  Window.heading (name.getD "")

theorem display_malformed (store : Store) {name : Option String} {text : String} (htext : text ≠ "")
    (cause : SyntaxCause) (span : Span) :
    Fault.display store (.malformed cause (some (Source.locate ⟨name, some text⟩ span))) =
      sourceHeading name ++
        Window.render (Text.lines text) span.row span.col span.length cause.message := by
  have hlines : (Text.lines text).isEmpty = false := by
    have hne := Text.splitLines_ne_nil (show text.toList ≠ [] by simpa using htext)
    simpa [Text.lines] using hne
  simp only [Fault.display, Fault.setting?, Fault.location?, Option.bind_some,
    Location.lines_locate store htext, hlines]
  rfl

/-- A text that is not read is not empty. -/
theorem text_ne_empty_of_readTrees {name : Option String} {text : String} {fault : Fault}
    (hread : readTrees name text = .error fault) : text ≠ "" := by
  rintro rfl
  have hparts : pieces "".toList = [] := by simp [pieces]
  rw [readTrees_of_closed name hparts rfl] at hread
  cases hread

/-- What is shown for a text that is not read holds the message and a marker, unless the fault is
at the end of a text that ends with a line feed and has no stray breaks.  Then only lines of
the text are shown. -/
theorem displayed_fault_marks {name : Option String} {text : String} {fault : Fault}
    (store : Store) (hread : readTrees name text = .error fault) :
    ∃ cause span, fault = .malformed cause (some (Source.locate ⟨name, some text⟩ span)) ∧
      (¬ IsPastLines text span → Window.Marks (fault.display store) cause.message) ∧
      (IsPastLines text span → fault.display store = sourceHeading name ++
        String.join ((Window.shown (Text.lines text) span.row).map Window.plain)) := by
  have htext := text_ne_empty_of_readTrees hread
  obtain ⟨cause, span, hspan, rfl, -⟩ := isSyntaxFault_of_readTrees hread
  have hrow := length_lines_lt_row_iff htext hspan
  refine ⟨cause, span, rfl, ?_, ?_⟩
  · intro hnot
    have hpos := (row_of_mem_tokenPlaces hspan).1
    have hless : span.row - 1 < (Text.lines text).length := by
      have hle := mt hrow.1 hnot
      omega
    obtain ⟨above, below, hrender⟩ := @Window.exists_render_eq (Text.lines text) span.col
      span.length cause.message _ span.row hpos (List.getElem?_eq_getElem hless)
    rw [display_malformed store htext, hrender, ← String.append_assoc, ← String.append_assoc]
    exact Window.marks_plain_marker _ _ _ _ _ _
  · intro hpast
    have hpastRow : ((Text.lines text).length : Int) < span.row := by exact_mod_cast hrow.2 hpast
    rw [display_malformed store htext, Window.render_of_length_lt hpastRow]

/-- A word that names no kind is marked on the second line. -/
theorem displayed_fault_marks_unknown_kind :
    ∃ fault, readTrees none "(FILE\n  (BOGUS x))" = .error fault ∧
      Window.Marks (fault.display .empty) "Unknown node kind \"BOGUS\"" := by
  have hread : readTrees none "(FILE\n  (BOGUS x))" = .error (.malformed (.unknownKind "BOGUS")
      (some (Source.locate ⟨none, some "(FILE\n  (BOGUS x))"⟩ ⟨2, 4, 5⟩))) := by
    have htokens : tokensFrom .start (pieces "(FILE\n  (BOGUS x))".toList) =
        [⟨.opening, "(", ⟨1, 1, 1⟩⟩, ⟨.word, "FILE", ⟨1, 2, 4⟩⟩, ⟨.opening, "(", ⟨2, 3, 1⟩⟩,
          ⟨.word, "BOGUS", ⟨2, 4, 5⟩⟩, ⟨.word, "x", ⟨2, 10, 1⟩⟩, ⟨.closing, ")", ⟨2, 11, 1⟩⟩,
          ⟨.closing, ")", ⟨2, 12, 1⟩⟩] := by
      decide +kernel
    rw [readTrees_of_closed none rfl (by decide +kernel), htokens]
    rfl
  obtain ⟨cause, span, hfault, hmarks, -⟩ := displayed_fault_marks .empty hread
  obtain rfl : SyntaxCause.unknownKind "BOGUS" = cause := (Fault.malformed.inj hfault).1
  have hlast : "(FILE\n  (BOGUS x))".toList.getLast? ≠ some '\n' := by decide +kernel
  exact ⟨_, hread, hmarks fun hpast => hlast hpast.2.1⟩

/-- At the end of a text that ends with a line feed neither the message nor a marker is shown. -/
theorem fault_after_last_line_not_marked :
    ∃ fault, readTrees (some "<tree>") "(FILE\n" = .error fault ∧
      fault.message = "Unexpected end of file" ∧
      fault.display .empty = "File : \"<tree>\"\n    1 :(FILE\n" ∧
      ¬ fault.message.toList <:+: (fault.display .empty).toList ∧
      '^' ∉ (fault.display .empty).toList := by
  have hread : readTrees (some "<tree>") "(FILE\n" = .error (.malformed .endOfFile
      (some (Source.locate ⟨some "<tree>", some "(FILE\n"⟩ ⟨2, 1, 1⟩))) := by
    have htokens : tokensFrom .start (pieces "(FILE\n".toList) =
        [⟨.opening, "(", ⟨1, 1, 1⟩⟩, ⟨.word, "FILE", ⟨1, 2, 4⟩⟩] := by
      decide +kernel
    rw [readTrees_of_closed _ rfl (by decide +kernel), htokens]
    rfl
  exact ⟨_, hread, rfl, by decide +kernel, by decide +kernel, by decide +kernel⟩

end Notation

end NescTree
