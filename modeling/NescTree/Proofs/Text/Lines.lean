import Mathlib.Data.List.TakeWhile
import NescTree.Text.Lines

/-!
# Lines and rows

A text is shown by its lines, which end at every line boundary that Unicode knows, while
its rows end at line feeds only.  The two differ by the stray breaks: the line breaks that
are neither a line feed nor a carriage return in front of one.  There are as many lines as
line feeds and stray breaks, and one more for what stands after the last of them.
-/

namespace NescTree.Text

/-- Whether a carriage return stands in front of a line feed, so that only the line feed
ends a line. -/
def isJoined (char : Char) (rest : List Char) : Bool :=
  char == '\r' && rest.head? == some '\n'

/-- Whether a line ends at a character, with the text after it, although no row does. -/
def isStray (char : Char) (rest : List Char) : Bool :=
  isLineBreak char && char != '\n' && !isJoined char rest

/-- The number of line breaks that end no row. -/
def strayBreaks : List Char → Nat
  | [] => 0
  | char :: rest => (if isStray char rest then 1 else 0) + strayBreaks rest

/-- Whether a text goes on after its last line break. -/
def endsInLine (text : List Char) : Bool :=
  text.getLast?.any fun char => !isLineBreak char

@[simp]
theorem splitLines_nil : splitLines [] = [] := rfl

theorem endsInLine_cons {rest : List Char} (char : Char) (hrest : rest ≠ []) :
    endsInLine (char :: rest) = endsInLine rest := by
  obtain ⟨next, more, rfl⟩ := List.exists_cons_of_ne_nil hrest
  simp [endsInLine]

section Cons

variable {char : Char} {rest : List Char}

theorem splitLines_of_isJoined (hjoined : isJoined char rest = true) :
    splitLines (char :: rest) = splitLines rest := by
  cases rest with
  | nil => simp [isJoined] at hjoined
  | cons next rest =>
    obtain ⟨rfl, rfl⟩ : char = '\r' ∧ next = '\n' := by simpa [isJoined] using hjoined
    rfl

theorem splitLines_of_isLineBreak (hjoined : isJoined char rest = false)
    (hbreak : isLineBreak char = true) : splitLines (char :: rest) = [] :: splitLines rest := by
  rw [splitLines.eq_def]
  split
  · simp_all
  · simp_all [isJoined]
  · simp_all

theorem splitLines_of_plain (hplain : isLineBreak char = false) :
    splitLines (char :: rest) = prependToFirst char (splitLines rest) := by
  rw [splitLines.eq_def]
  split
  · simp_all
  · simp_all [isLineBreak]
  · simp_all

theorem length_prependToFirst (lines : List (List Char)) :
    (prependToFirst char lines).length = max lines.length 1 := by
  cases lines with
  | nil => rfl
  | cons line lines => simp [prependToFirst]

theorem splitLines_ne_nil (hrest : rest ≠ []) : splitLines rest ≠ [] := by
  induction rest with
  | nil => exact absurd rfl hrest
  | cons char rest ih =>
    cases hjoined : isJoined char rest with
    | true =>
      rw [splitLines_of_isJoined hjoined]
      apply ih
      rintro rfl
      simp [isJoined] at hjoined
    | false =>
      cases hbreak : isLineBreak char with
      | true => simp [splitLines_of_isLineBreak hjoined hbreak]
      | false =>
        rw [splitLines_of_plain hbreak]
        cases splitLines rest <;> simp [prependToFirst]

end Cons

/-- A text has as many lines as line feeds and stray breaks, and one more if it goes on
after the last of them. -/
theorem length_splitLines (text : List Char) :
    (splitLines text).length =
      text.count '\n' + strayBreaks text + if endsInLine text then 1 else 0 := by
  induction text with
  | nil => rfl
  | cons char rest ih =>
    cases hjoined : isJoined char rest with
    | true =>
      have hchar : char ≠ '\n' := by
        rintro rfl
        simp [isJoined] at hjoined
      have hrest : rest ≠ [] := by
        rintro rfl
        simp [isJoined] at hjoined
      rw [splitLines_of_isJoined hjoined, ih, endsInLine_cons char hrest,
        List.count_cons_of_ne hchar, strayBreaks]
      simp [isStray, hjoined]
    | false =>
      cases hbreak : isLineBreak char with
      | true =>
        have hone : (char :: rest).count '\n' + (if isStray char rest then 1 else 0) =
            rest.count '\n' + 1 := by
          by_cases hfeed : char = '\n'
          · simp [hfeed, isStray]
          · simp [hfeed, isStray, hbreak, hjoined]
        have hsame : endsInLine (char :: rest) = endsInLine rest := by
          by_cases hrest : rest = []
          · simp [hrest, endsInLine, hbreak]
          · exact endsInLine_cons char hrest
        rw [splitLines_of_isLineBreak hjoined hbreak, List.length_cons, ih, hsame, strayBreaks]
        omega
      | false =>
        have hchar : char ≠ '\n' := by
          rintro rfl
          simp [isLineBreak] at hbreak
        rw [splitLines_of_plain hbreak, length_prependToFirst, List.count_cons_of_ne hchar,
          strayBreaks]
        by_cases hrest : rest = []
        · simp [hrest, endsInLine, hbreak, isStray, strayBreaks]
        · have hlines := List.length_pos_iff.2 (splitLines_ne_nil hrest)
          rw [Nat.max_eq_left (by omega), ih, endsInLine_cons char hrest]
          simp [isStray, hbreak]

/-- A text that ends with a line break other than a line feed has a stray break. -/
theorem strayBreaks_pos {text : List Char} {last : Char} (hlast : text.getLast? = some last)
    (hbreak : isLineBreak last = true) (hfeed : last ≠ '\n') : 0 < strayBreaks text := by
  induction text with
  | nil => simp at hlast
  | cons char rest ih =>
    cases rest with
    | nil =>
      obtain rfl : char = last := by simpa using hlast
      simp [strayBreaks, isStray, hbreak, hfeed, isJoined]
    | cons next rest =>
      rw [List.getLast?_cons_cons] at hlast
      rw [strayBreaks]
      exact Nat.add_pos_right _ (ih hlast)

/-- Before a character there are fewer line feeds than there are lines in the text. -/
theorem count_lineFeed_lt_length_splitLines (before : List Char) {rest : List Char}
    (hrest : rest ≠ []) : before.count '\n' < (splitLines (before ++ rest)).length := by
  have hlast : (before ++ rest).getLast? = some (rest.getLast hrest) := by
    rw [List.getLast?_append, List.getLast?_eq_some_getLast hrest, Option.some_or]
  rw [length_splitLines, List.count_append]
  by_cases hbreak : isLineBreak (rest.getLast hrest) = true
  · by_cases hfeed : rest.getLast hrest = '\n'
    · have hcount : 0 < rest.count '\n' := by
        rw [List.count_pos_iff, ← hfeed]
        exact List.getLast_mem hrest
      omega
    · have hstray := strayBreaks_pos hlast hbreak hfeed
      omega
  · have hends : endsInLine (before ++ rest) = true := by simp [endsInLine, hlast, hbreak]
    rw [hends, if_pos rfl]
    omega

/-- The row after the last line feed has no line only if the text ends there and has no stray
breaks. -/
theorem length_splitLines_le_count_iff {text : List Char} (htext : text ≠ []) :
    (splitLines text).length ≤ text.count '\n' ↔
      text.getLast? = some '\n' ∧ strayBreaks text = 0 := by
  have hlast := List.getLast?_eq_some_getLast htext
  rw [length_splitLines]
  constructor
  · intro hle
    have hends : endsInLine text = false := by
      rw [← Bool.not_eq_true]
      intro hends
      rw [if_pos hends] at hle
      omega
    have hbreak : isLineBreak (text.getLast htext) = true := by
      simpa [endsInLine, hlast] using hends
    have hstray : strayBreaks text = 0 := by omega
    refine ⟨?_, hstray⟩
    rw [hlast, Option.some.injEq]
    apply Decidable.byContradiction
    intro hfeed
    have hpos := strayBreaks_pos hlast hbreak hfeed
    omega
  · rintro ⟨hfeed, hstray⟩
    simp [endsInLine, hfeed, hstray, isLineBreak]

section Append

variable {first second : List Char}

theorem isJoined_append {char : Char} (hsecond : second.head? ≠ some '\n') :
    isJoined char (first ++ second) = isJoined char first := by
  cases first with
  | nil => simp [isJoined, hsecond]
  | cons next first => rfl

/-- Texts that are not joined inside a line end have the stray breaks of both. -/
theorem strayBreaks_append (hsecond : second.head? ≠ some '\n') :
    strayBreaks (first ++ second) = strayBreaks first + strayBreaks second := by
  induction first with
  | nil => simp [strayBreaks]
  | cons char first ih =>
    have hstray : isStray char (first ++ second) = isStray char first := by
      rw [isStray, isStray, isJoined_append hsecond]
    rw [List.cons_append, strayBreaks, strayBreaks, hstray, ih, Nat.add_assoc]

/-- After a line break new lines start. -/
theorem splitLines_append (hfirst : endsInLine first = false)
    (hsecond : second.head? ≠ some '\n') :
    splitLines (first ++ second) = splitLines first ++ splitLines second := by
  induction first with
  | nil => rfl
  | cons char first ih =>
    have hrest : endsInLine first = false := by
      by_cases hmore : first = []
      · simp [hmore, endsInLine]
      · rwa [endsInLine_cons char hmore] at hfirst
    rw [List.cons_append]
    cases hjoined : isJoined char first with
    | true =>
      rw [splitLines_of_isJoined hjoined,
        splitLines_of_isJoined ((isJoined_append hsecond).trans hjoined), ih hrest]
    | false =>
      cases hbreak : isLineBreak char with
      | true =>
        rw [splitLines_of_isLineBreak hjoined hbreak,
          splitLines_of_isLineBreak ((isJoined_append hsecond).trans hjoined) hbreak, ih hrest,
          List.cons_append]
      | false =>
        have hmore : first ≠ [] := by
          rintro rfl
          simp [endsInLine, hbreak] at hfirst
        obtain ⟨line, lines, hlines⟩ := List.exists_cons_of_ne_nil (splitLines_ne_nil hmore)
        rw [splitLines_of_plain hbreak, splitLines_of_plain hbreak, ih hrest, hlines]
        rfl

/-- A text can be divided after its last line break. -/
theorem exists_last_lineBreak (text : List Char) :
    ∃ head lead, text = head ++ lead ∧ endsInLine head = false ∧
      ∀ char ∈ lead, isLineBreak char = false := by
  induction text with
  | nil => exact ⟨[], [], rfl, rfl, by simp⟩
  | cons char text ih =>
    obtain ⟨head, lead, rfl, hhead, hlead⟩ := ih
    cases head with
    | nil =>
      cases hbreak : isLineBreak char with
      | true => exact ⟨[char], lead, rfl, by simp [endsInLine, hbreak], hlead⟩
      | false => exact ⟨[], char :: lead, rfl, rfl, List.forall_mem_cons.2 ⟨hbreak, hlead⟩⟩
    | cons next head =>
      refine ⟨char :: next :: head, lead, rfl, ?_, hlead⟩
      rw [endsInLine_cons char (List.cons_ne_nil next head), hhead]

end Append

/-- The first line of a text goes up to its first line break. -/
theorem head?_splitLines {text : List Char} (htext : text ≠ []) :
    (splitLines text).head? = some (text.takeWhile fun char => !isLineBreak char) := by
  induction text with
  | nil => exact absurd rfl htext
  | cons char rest ih =>
    cases hjoined : isJoined char rest with
    | true =>
      cases rest with
      | nil => simp [isJoined] at hjoined
      | cons next rest =>
        obtain ⟨rfl, rfl⟩ : char = '\r' ∧ next = '\n' := by simpa [isJoined] using hjoined
        rw [splitLines_of_isJoined hjoined, ih (List.cons_ne_nil _ _)]
        rfl
    | false =>
      cases hbreak : isLineBreak char with
      | true => simp [splitLines_of_isLineBreak hjoined hbreak, hbreak]
      | false =>
        rw [splitLines_of_plain hbreak, List.takeWhile_cons_of_pos (by simp [hbreak])]
        by_cases hrest : rest = []
        · simp [hrest, prependToFirst]
        · obtain ⟨line, lines, hlines⟩ := List.exists_cons_of_ne_nil (splitLines_ne_nil hrest)
          have hline := ih hrest
          rw [hlines, List.head?_cons, Option.some.injEq] at hline
          simp [hlines, prependToFirst, hline]

/-- In a text without line feeds every line break is stray. -/
theorem strayBreaks_eq_zero_iff {text : List Char} (htext : '\n' ∉ text) :
    strayBreaks text = 0 ↔ ∀ char ∈ text, isLineBreak char = false := by
  induction text with
  | nil => simp [strayBreaks]
  | cons char rest ih =>
    obtain ⟨hchar, hrest⟩ : '\n' ≠ char ∧ '\n' ∉ rest := by simpa using htext
    have hjoined : isJoined char rest = false := by
      cases rest with
      | nil => simp [isJoined]
      | cons next rest =>
        have hnext : next ≠ '\n' := fun heq => hrest (by simp [heq])
        simp [isJoined, hnext]
    rw [strayBreaks, List.forall_mem_cons, ← ih hrest]
    cases hbreak : isLineBreak char <;> simp [isStray, hbreak, hjoined, Ne.symm hchar]

section LastBreak

variable {head lead chars rest : List Char}

theorem head?_append_ne_lineFeed (hlead : ∀ char ∈ lead, isLineBreak char = false)
    (hrest : rest.head? ≠ some '\n') : (lead ++ rest).head? ≠ some '\n' := by
  cases lead with
  | nil => exact hrest
  | cons char lead =>
    intro hfeed
    obtain rfl : char = '\n' := by simpa using hfeed
    simp [isLineBreak] at hlead

theorem lineFeed_notMem_of_plain (hlead : ∀ char ∈ lead, isLineBreak char = false) :
    '\n' ∉ lead := by
  intro hmem
  simpa [isLineBreak] using hlead _ hmem

/-- Characters without line breaks add no stray breaks. -/
theorem strayBreaks_append_plain (hlead : ∀ char ∈ lead, isLineBreak char = false) :
    strayBreaks (head ++ lead) = strayBreaks head := by
  have hfeed := lineFeed_notMem_of_plain hlead
  rw [strayBreaks_append fun hfirst => hfeed (List.mem_of_mem_head? hfirst),
    (strayBreaks_eq_zero_iff hfeed).2 hlead, Nat.add_zero]

/-- The lines before a place that have come to an end are as many as the line feeds and stray
breaks before it; then comes the line that the place is on. -/
theorem exists_splitLines_append (before : List Char) (hrest : rest.head? ≠ some '\n') :
    ∃ head lead, before = head ++ lead ∧ endsInLine head = false ∧
      (∀ char ∈ lead, isLineBreak char = false) ∧
      (splitLines head).length = before.count '\n' + strayBreaks before ∧
      splitLines (before ++ rest) = splitLines head ++ splitLines (lead ++ rest) := by
  obtain ⟨head, lead, rfl, hhead, hlead⟩ := exists_last_lineBreak before
  refine ⟨head, lead, rfl, hhead, hlead, ?_, ?_⟩
  · rw [length_splitLines, hhead, strayBreaks_append_plain hlead, List.count_append,
      List.count_eq_zero_of_not_mem (lineFeed_notMem_of_plain hlead)]
    rfl
  · rw [List.append_assoc]
    exact splitLines_append hhead (head?_append_ne_lineFeed hlead hrest)

/-- Some characters stand whole on their line exactly if there is no line break among them. -/
theorem take_drop_takeWhile_eq_iff (hlead : ∀ char ∈ lead, isLineBreak char = false) :
    (((lead ++ (chars ++ rest)).takeWhile fun char => !isLineBreak char).drop lead.length).take
        chars.length = chars ↔ ∀ char ∈ chars, isLineBreak char = false := by
  have hline : (lead ++ (chars ++ rest)).takeWhile (fun char => !isLineBreak char) =
      lead ++ (chars ++ rest).takeWhile fun char => !isLineBreak char :=
    List.takeWhile_append_of_pos (by simpa using hlead)
  rw [hline, List.drop_left]
  constructor
  · intro hshown char hchar
    rw [← hshown] at hchar
    simpa using List.mem_takeWhile_imp (List.mem_of_mem_take hchar)
  · intro hchars
    rw [List.takeWhile_append_of_pos (by simpa using hchars), List.take_left]

end LastBreak

end NescTree.Text
