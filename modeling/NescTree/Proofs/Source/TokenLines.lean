import NescTree.Proofs.Notation.Concatenation
import NescTree.Proofs.Notation.Lexing
import NescTree.Proofs.Text.Lines

/-!
# The line of a token

The place of a token is given by rows, which end at line feeds, and the line that is shown
for it is taken from the lines of the text, which end at other line breaks as well.  The two
agree as long as there is no stray break before the token.  After a stray break the line that
is shown has come to its end before the token starts.
-/

namespace NescTree

namespace Location

variable {name : Option String} {text : String} {span : Span}

/-- A text that is at hand and not empty is not looked up. -/
theorem lines_locate (store : Store) (htext : text ≠ "") :
    (Source.locate ⟨name, some text⟩ span).lines store = Text.lines text := by
  simp [lines, sourceText, Source.locate, htext]

/-- The line of a place is that of its row. -/
theorem sourceLine_locate (store : Store) {line : List Char} (hrow : 0 < span.row)
    (hline : (Text.splitLines text.toList)[span.row - 1]? = some line) :
    (Source.locate ⟨name, some text⟩ span).sourceLine store = String.ofList line := by
  have htext : text ≠ "" := by
    rintro rfl
    simp at hline
  obtain ⟨hless, -⟩ := List.getElem?_eq_some_iff.1 hline
  have hin : 0 < (span.row : Int) ∧ (span.row : Int) ≤ (Text.lines text).length := by
    rw [Text.lines, List.length_map]
    omega
  have hindex : ((span.row : Int) - 1).toNat = span.row - 1 := by omega
  rw [sourceLine, lines_locate store htext]
  simp only [Source.locate, if_pos hin, hindex]
  simp [Text.lines, List.getD, hline]

end Location

namespace Notation

/-- Without stray breaks the last line break is a line feed, so that columns count from
there. -/
theorem col_after_of_last_lineBreak {head lead : List Char}
    (hhead : Text.endsInLine head = false) (hlead : '\n' ∉ lead)
    (hstray : Text.strayBreaks head = 0) :
    (Position.start.after (head ++ lead)).col - 1 = lead.length := by
  rw [Position.after_append, Position.after_of_lineFeed_notMem _ hlead]
  rcases List.eq_nil_or_concat head with rfl | ⟨front, last, rfl⟩
  · simp [Position.after, Position.start]
  · rw [List.concat_eq_append] at hhead hstray ⊢
    obtain rfl : last = '\n' := by
      by_contra hfeed
      have hlast : (front ++ [last]).getLast? = some last := by simp
      have hpos := Text.strayBreaks_pos hlast (by simpa [Text.endsInLine] using hhead) hfeed
      omega
    rw [Position.after_append_lineFeed]
    simp [Position.lowered, Position.start]

/-- A token that holds no line feed is what stands at its columns of the line that is shown
for it, exactly if there is no line break in it, as long as there are no stray breaks before
it.  After a stray break, the line that is shown is one of those that have come to an end before
the token starts. -/
theorem source_line_of_token {name : Option String} {text : String} {token : Token}
    (store : Store) (hmem : token ∈ (tokenize name text).tokens) (htype : token.type ≠ .finish)
    (hfeed : '\n' ∉ token.value.toList) :
    let line := ((Source.locate ⟨name, some text⟩ token.span).sourceLine store).toList
    let before := text.toList.take (token.start text.toList)
    (Text.strayBreaks before = 0 →
      ((line.drop (token.span.col - 1)).take token.span.length = token.value.toList ↔
        Text.strayBreaks token.value.toList = 0)) ∧
    (0 < Text.strayBreaks before → ∃ head lead, before = head ++ lead ∧
      Text.endsInLine head = false ∧
      (Text.splitLines head)[token.span.row - 1]? = some line) := by
  have htoken : token ∈ tokensFrom .start (pieces text.toList) := by
    obtain htoken | rfl := mem_tokensFrom_or_eq_endToken hmem
    · exact htoken
    · exact absurd rfl htype
  obtain ⟨before, type, chars, rest, rfl, hchars, htext⟩ := exists_tokenAfter_of_mem htoken
  have hplain : '\n' ∉ chars := by simpa [tokenAfter] using hfeed
  have hfirst : (chars ++ rest).head? ≠ some '\n' := by
    obtain ⟨char, chars, rfl⟩ := List.exists_cons_of_ne_nil hchars
    simpa using Ne.symm (List.ne_of_not_mem_cons hplain)
  obtain ⟨head, lead, rfl, hhead, hlead, hlength, hlines⟩ :=
    Text.exists_splitLines_append before hfirst
  rw [← htext] at hlines
  have hrow : (tokenAfter (head ++ lead) type chars).span.row = (head ++ lead).count '\n' + 1 := by
    simp [tokenAfter, Position.span, Position.row_after, Position.start, Nat.add_comm]
  rw [(start_and_placed_tokenAfter htext hchars type).1, htext, List.take_left, hrow,
    Nat.add_sub_cancel]
  constructor
  · intro hstray
    have hline : (Text.splitLines text.toList)[(head ++ lead).count '\n']? =
        some ((lead ++ (chars ++ rest)).takeWhile fun char => !Text.isLineBreak char) := by
      rw [hstray, Nat.add_zero] at hlength
      rw [hlines, List.getElem?_append_right (by omega), hlength, Nat.sub_self,
        ← List.head?_eq_getElem?, Text.head?_splitLines (by simp [hchars])]
    have hcol : (tokenAfter (head ++ lead) type chars).span.col - 1 = lead.length :=
      col_after_of_last_lineBreak hhead (Text.lineFeed_notMem_of_plain hlead)
        ((Text.strayBreaks_append_plain hlead).symm.trans hstray)
    rw [Location.sourceLine_locate store (by omega) (by rwa [hrow]), hcol, String.toList_ofList]
    simp only [tokenAfter, Position.span, String.toList_ofList]
    rw [Text.take_drop_takeWhile_eq_iff hlead, Text.strayBreaks_eq_zero_iff hplain]
  · intro hstray
    have hless : (head ++ lead).count '\n' < (Text.splitLines head).length := by omega
    refine ⟨head, lead, rfl, hhead, ?_⟩
    have hline : (Text.splitLines text.toList)[(head ++ lead).count '\n']? =
        some (Text.splitLines head)[(head ++ lead).count '\n'] := by
      rw [hlines, List.getElem?_append_left hless, List.getElem?_eq_getElem hless]
    rw [Location.sourceLine_locate store (by omega) (by rwa [hrow]), List.getElem?_eq_getElem hless,
      String.toList_ofList]

/-- The second row ends with a carriage return and a line feed, so the third row is shown for
the word on it. -/
theorem source_line_of_token_third_row :
    ⟨.word, "BOGUS", ⟨3, 4, 5⟩⟩ ∈ (tokenize none "; a\n(FILE\r\n  (BOGUS x))").tokens ∧
      let source : Source := ⟨none, some "; a\n(FILE\r\n  (BOGUS x))"⟩
      let line := (source.locate ⟨3, 4, 5⟩).sourceLine .empty
      (line.toList.drop 3).take 5 = "BOGUS".toList := by
  have hmem : ⟨.word, "BOGUS", ⟨3, 4, 5⟩⟩ ∈
      (tokenize none "; a\n(FILE\r\n  (BOGUS x))").tokens := by decide +kernel
  refine ⟨hmem, ?_⟩
  exact ((source_line_of_token .empty hmem (by decide) (by decide +kernel)).1
    (by decide +kernel)).2 (by decide +kernel)

/-- The comment ends with a form feed, after which the row goes on but a new line starts.  The
line that is shown for the second row is the empty one between them. -/
theorem token_not_on_source_line :
    ∃ token ∈ (tokenize none "; page\x0c\n(BOGUS x)").tokens, token.type ≠ .finish ∧
      '\n' ∉ token.value.toList ∧
      let source : Source := ⟨none, some "; page\x0c\n(BOGUS x)"⟩
      let line := (source.locate token.span).sourceLine .empty
      line = "" ∧
        (line.toList.drop (token.span.col - 1)).take token.span.length ≠ token.value.toList :=
  ⟨⟨.word, "BOGUS", ⟨2, 2, 5⟩⟩, by decide +kernel, by decide, by decide +kernel, by decide +kernel,
    by decide +kernel⟩

end Notation

end NescTree
