import NescTree.Proofs.Notation.Lexing
import NescTree.Proofs.Notation.Scanner

/-!
# Scanning a text row by row

The cursor of the scanner always stands in its text between what it has read and the rest,
and knows the start of its token.  So it never has to go back further than it can, a round
for each character is enough, and its tokens are those of the pieces of the text.
-/

namespace NescTree.Notation.Scanner

section Cursor

/-- What is left of the row of the cursor. -/
def ahead (scanner : Scanner) : List Char :=
  match scanner.chunk? with
  | some chunk => chunk.chars.drop scanner.index
  | none => []

/-- A cursor on a row, between what has been read and the rest. -/
structure OnRow (scanner : Scanner) (chunk : Chunk) (above below read rest : List Char) :
    Prop where
  rows_eq : rows (chunk.chars ++ below) = chunk.chars :: rows below
  waiting_eq : scanner.waiting = chunksFrom (chunk.row + 1) (rows below)
  index_le : scanner.index ≤ chunk.chars.length
  above_eq : Position.start.after above = ⟨chunk.row, 1⟩
  read_eq : read = above ++ chunk.chars.take scanner.index
  rest_eq : rest = chunk.chars.drop scanner.index ++ below

/-- A cursor inside a token, of which some characters have been read, after the characters
before the token and in front of the rest of the text.  The start of the token is known,
unless the token may start on the next row. -/
structure Stands (scanner : Scanner) (before token rest : List Char) : Prop where
  text_eq : scanner.text = before ++ (token ++ rest)
  taken_eq : scanner.taken = token
  start_le : scanner.start ≤ scanner.index
  on_row : ∀ chunk, scanner.chunk? = some chunk →
    ∃ above below, scanner.OnRow chunk above below (before ++ token) rest
  at_end : scanner.chunk? = none → scanner.waiting = [] ∧ rest = []
  origin_eq : token ≠ [] ∨ scanner.ahead ≠ [] → scanner.origin = Position.start.after before

variable {scanner : Scanner} {before token rest : List Char} {char : Char} {chunk : Chunk}

/-- Up to the end of a row there is no line feed in it. -/
theorem OnRow.lineFeed_notMem {above below read : List Char}
    (hrow : scanner.OnRow chunk above below read rest)
    (hless : scanner.index < chunk.chars.length) :
    '\n' ∉ chunk.chars.take scanner.index := by
  obtain ⟨lower, -, -, hends⟩ := exists_below_of_rows hrow.rows_eq
  obtain ⟨-, hchars⟩ | ⟨inner, hchars, hinner⟩ := hends
  · exact fun hmem => hchars (List.mem_of_mem_take hmem)
  · have hindex : scanner.index ≤ inner.length := by
      rw [hchars, List.length_append, List.length_singleton] at hless
      omega
    rw [hchars, List.take_append_of_le_length hindex]
    exact fun hmem => hinner (List.mem_of_mem_take hmem)

/-- Counting goes from the start of a row to the start of the next one. -/
theorem OnRow.after_row {above below read : List Char}
    (hrow : scanner.OnRow chunk above below read rest) (hbelow : below ≠ []) :
    Position.start.after (above ++ chunk.chars) = ⟨chunk.row + 1, 1⟩ := by
  obtain ⟨lower, htext, -, hends⟩ := exists_below_of_rows hrow.rows_eq
  obtain rfl : below = lower := List.append_cancel_left htext
  obtain ⟨hempty, -⟩ | ⟨inner, hchars, hinner⟩ := hends
  · exact absurd hempty hbelow
  · rw [Position.after_append, hrow.above_eq, hchars, Position.after_append,
      Position.after_of_lineFeed_notMem _ hinner]
    rfl

theorem ahead_of_chunk (hchunk : scanner.chunk? = some chunk) :
    scanner.ahead = chunk.chars.drop scanner.index := by
  simp [ahead, hchunk]

theorem taken_of_chunk (hchunk : scanner.chunk? = some chunk) :
    scanner.taken =
      scanner.pending ++ (chunk.chars.take scanner.index).drop scanner.start := by
  simp [taken, onRow, hchunk]

theorem next_of_none (hchunk : scanner.chunk? = none) : scanner.next = (none, scanner) := by
  rw [next]
  split <;> simp_all

theorem next_of_row_end (hchunk : scanner.chunk? = some chunk)
    (hahead : scanner.ahead = []) : scanner.next = scanner.nextChunk.next := by
  have hindex : chunk.chars[scanner.index]? = none := by
    simpa [ahead_of_chunk hchunk] using hahead
  rw [next]
  split <;> simp_all

/-- At the end of a row the cursor goes on to the next one, if there is one. -/
theorem Stands.nextChunk (hstands : scanner.Stands before token rest)
    (hchunk : scanner.chunk? = some chunk) (hahead : scanner.ahead = []) :
    scanner.nextChunk.Stands before token rest ∧ (rest ≠ [] → scanner.nextChunk.ahead ≠ []) := by
  obtain ⟨above, below, hrow⟩ := hstands.on_row chunk hchunk
  rw [ahead_of_chunk hchunk] at hahead
  have hrest : rest = below := by rw [hrow.rest_eq, hahead, List.nil_append]
  have hall : chunk.chars.take scanner.index = chunk.chars :=
    List.take_of_length_le (List.drop_eq_nil_iff.1 hahead)
  have hread : before ++ token = above ++ chunk.chars := by rw [hrow.read_eq, hall]
  have htoken : scanner.pending ++ chunk.chars.drop scanner.start = token := by
    rw [← hstands.taken_eq, taken_of_chunk hchunk, hall]
  subst hrest
  cases hrows : rows rest with
  | nil =>
    have hwaiting : scanner.waiting = [] := by rw [hrow.waiting_eq, hrows, chunksFrom]
    obtain rfl : rest = [] := by rw [← flatten_rows rest, hrows, List.flatten_nil]
    have hnext : scanner.nextChunk =
        { scanner with chunk? := none, index := 0, start := 0, pending := token } := by
      simp [Scanner.nextChunk, hwaiting, hchunk, htoken]
    rw [hnext]
    refine ⟨⟨hstands.text_eq, ?_, Nat.le_refl 0, by simp, ?_, ?_⟩, by simp⟩
    · simp [taken, onRow]
    · intro _
      exact ⟨hwaiting, rfl⟩
    · intro hknown
      exact hstands.origin_eq (.inl (by simpa [ahead] using hknown))
  | cons first more =>
    obtain ⟨lower, rfl, rfl, -⟩ := exists_below_of_rows hrows
    have hfirst := ne_nil_of_rows hrows
    have hplace := hrow.after_row (List.append_ne_nil_of_left_ne_nil hfirst lower)
    have hwaiting : scanner.waiting =
        ⟨chunk.row + 1, first⟩ :: chunksFrom (chunk.row + 2) (rows lower) := by
      rw [hrow.waiting_eq, hrows, chunksFrom]
    have hnext : scanner.nextChunk =
        { scanner with
          chunk? := some ⟨chunk.row + 1, first⟩
          waiting := chunksFrom (chunk.row + 2) (rows lower)
          index := 0, start := 0, pending := token
          origin := if token.isEmpty then ⟨chunk.row + 1, 1⟩ else scanner.origin } := by
      simp [Scanner.nextChunk, hwaiting, hchunk, htoken]
    rw [hnext]
    refine ⟨⟨hstands.text_eq, ?_, Nat.le_refl 0, ?_, by simp, ?_⟩, ?_⟩
    · simp [taken, onRow]
    · intro other hother
      obtain rfl := Option.some.inj hother
      refine ⟨above ++ chunk.chars, lower, ⟨hrows, rfl, Nat.zero_le _, hplace, ?_, rfl⟩⟩
      rw [hread, List.take_zero, List.append_nil]
    · intro _
      by_cases hempty : token = []
      · rw [hempty, List.append_nil] at hread
        simp [hempty, hread, hplace]
      · simpa [hempty] using hstands.origin_eq (.inl hempty)
    · intro _
      simpa [ahead] using hfirst

/-- The next character of the row is read, and the cursor can go back by it. -/
theorem Stands.next_of_ahead (hstands : scanner.Stands before token (char :: rest))
    (hahead : scanner.ahead ≠ []) :
    ∃ moved, scanner.next = (some char, moved) ∧
      moved.Stands before (token ++ [char]) rest ∧ moved.stepBack = .ok scanner := by
  have horigin := hstands.origin_eq (.inr hahead)
  cases hchunk : scanner.chunk? with
  | none => cases (hstands.at_end hchunk).2
  | some chunk =>
    obtain ⟨above, below, hrow⟩ := hstands.on_row chunk hchunk
    have hless : scanner.index < chunk.chars.length := by
      simpa [ahead_of_chunk hchunk] using hahead
    obtain ⟨hchar, hrest⟩ : char = chunk.chars[scanner.index] ∧
        rest = chunk.chars.drop (scanner.index + 1) ++ below := by
      have hcons := hrow.rest_eq
      rw [List.drop_eq_getElem_cons hless, List.cons_append] at hcons
      exact List.cons.inj hcons
    have htake : chunk.chars.take (scanner.index + 1) =
        chunk.chars.take scanner.index ++ [char] := by
      rw [hchar]
      exact List.take_succ_eq_append_getElem hless
    refine ⟨{ scanner with index := scanner.index + 1 }, ?_, ?_, rfl⟩
    · rw [next]
      split <;> simp_all
    refine ⟨?_, ?_, Nat.le_succ_of_le hstands.start_le, ?_, ?_, fun _ => horigin⟩
    · simpa using hstands.text_eq
    · have hinner : scanner.start ≤ (chunk.chars.take scanner.index).length := by
        rw [List.length_take_of_le hrow.index_le]
        exact hstands.start_le
      have htoken : scanner.pending ++ (chunk.chars.take scanner.index).drop scanner.start =
          token := by
        rw [← hstands.taken_eq, taken_of_chunk hchunk]
      simp only [taken, onRow, hchunk]
      rw [htake, List.drop_append_of_le_length hinner, ← List.append_assoc, htoken]
    · intro other hother
      obtain rfl : chunk = other := by simpa [hchunk] using hother
      refine ⟨above, below, ⟨hrow.rows_eq, hrow.waiting_eq, hless, hrow.above_eq, ?_, hrest⟩⟩
      rw [htake, ← List.append_assoc, hrow.read_eq, List.append_assoc]
    · simp [hchunk]

/-- The next character of the text is read, and the cursor can go back by it. -/
theorem Stands.next_cons (hstands : scanner.Stands before token (char :: rest)) :
    ∃ moved back, scanner.next = (some char, moved) ∧
      moved.Stands before (token ++ [char]) rest ∧
      moved.stepBack = .ok back ∧ back.Stands before token (char :: rest) := by
  by_cases hahead : scanner.ahead = []
  · cases hchunk : scanner.chunk? with
    | none => cases (hstands.at_end hchunk).2
    | some chunk =>
      obtain ⟨hnext, hrow⟩ := hstands.nextChunk hchunk hahead
      obtain ⟨moved, hmoved, hread, hback⟩ := hnext.next_of_ahead (hrow (List.cons_ne_nil _ _))
      rw [← next_of_row_end hchunk hahead] at hmoved
      exact ⟨moved, scanner.nextChunk, hmoved, hread, hback, hnext⟩
  · obtain ⟨moved, hmoved, hread, hback⟩ := hstands.next_of_ahead hahead
    exact ⟨moved, scanner, hmoved, hread, hback, hstands⟩

/-- At the end of the text no character is read. -/
theorem Stands.next_nil (hstands : scanner.Stands before token []) :
    ∃ moved, scanner.next = (none, moved) ∧ moved.Stands before token [] ∧
      moved.place = ⟨scanner.text.count '\n' + 1, 1⟩ := by
  cases hchunk : scanner.chunk? with
  | none => exact ⟨scanner, next_of_none hchunk, hstands, by simp [place, hchunk]⟩
  | some chunk =>
    obtain ⟨above, below, hrow⟩ := hstands.on_row chunk hchunk
    obtain ⟨hdrop, rfl⟩ := List.nil_eq_append_iff.1 hrow.rest_eq
    have hahead : scanner.ahead = [] := by rw [ahead_of_chunk hchunk, hdrop]
    have hwaiting : scanner.waiting = [] := hrow.waiting_eq
    have hnone : scanner.nextChunk.chunk? = none := by simp [Scanner.nextChunk, hwaiting]
    have htext : scanner.nextChunk.text = scanner.text := by simp [Scanner.nextChunk, hwaiting]
    refine ⟨scanner.nextChunk, ?_, (hstands.nextChunk hchunk hahead).1, ?_⟩
    · rw [next_of_row_end hchunk hahead, next_of_none hnone]
    · simp [place, hnone, htext]

/-- A token that has been read starts where it was noted to start. -/
theorem Stands.emit_eq (hstands : scanner.Stands before token rest) (htoken : token ≠ [])
    (type : TokenType) :
    scanner.emit type = (some (tokenAfter before type token), scanner.markStart) := by
  rw [emit, hstands.taken_eq, hstands.origin_eq (.inl htoken), tokenAfter]

/-- After what has been read, the next token can start. -/
theorem Stands.markStart (hstands : scanner.Stands before token rest) :
    scanner.markStart.Stands (before ++ token) [] rest := by
  refine ⟨?_, ?_, Nat.le_refl _, ?_, hstands.at_end, ?_⟩
  · simpa [Scanner.markStart] using hstands.text_eq
  · cases hchunk : scanner.chunk? <;> simp [taken, onRow, Scanner.markStart, hchunk]
  · intro chunk hchunk
    obtain ⟨above, below, hrow⟩ := hstands.on_row chunk hchunk
    rw [List.append_nil]
    exact ⟨above, below, ⟨hrow.rows_eq, hrow.waiting_eq, hrow.index_le, hrow.above_eq,
      hrow.read_eq, hrow.rest_eq⟩⟩
  · intro hknown
    have hahead : scanner.ahead ≠ [] := hknown.resolve_left (by simp)
    cases hchunk : scanner.chunk? with
    | none => simp [ahead, hchunk] at hahead
    | some chunk =>
      obtain ⟨above, below, hrow⟩ := hstands.on_row chunk hchunk
      have hless : scanner.index < chunk.chars.length := by
        simpa [ahead_of_chunk hchunk] using hahead
      rw [hrow.read_eq, Position.after_append, hrow.above_eq,
        Position.after_of_lineFeed_notMem _ (hrow.lineFeed_notMem hless),
        List.length_take_of_le hrow.index_le]
      simp [Scanner.markStart, place, hchunk]

theorem stands_begin (text : List Char) : (begin text).Stands [] [] text := by
  cases hrows : rows text with
  | nil =>
    obtain rfl : text = [] := by rw [← flatten_rows text, hrows, List.flatten_nil]
    refine ⟨rfl, rfl, Nat.le_refl 0, ?_, fun _ => ⟨rfl, rfl⟩, fun _ => rfl⟩
    intro chunk hchunk
    cases hchunk
  | cons first more =>
    obtain ⟨below, rfl, rfl, -⟩ := exists_below_of_rows hrows
    have hbegin : begin (first ++ below) =
        ⟨first ++ below, some ⟨1, first⟩, chunksFrom 2 (rows below), 0, 0, [], .start⟩ := by
      simp [begin, Scanner.nextChunk, hrows, chunksFrom, Scanner.markStart, place, Position.start]
    rw [hbegin]
    refine ⟨rfl, by simp [taken, onRow], Nat.le_refl 0, ?_, by simp, fun _ => rfl⟩
    intro chunk hchunk
    obtain rfl := Option.some.inj hchunk
    exact ⟨[], below, ⟨hrows, rfl, Nat.zero_le _, rfl, by simp, rfl⟩⟩

end Cursor

section Loops

variable {scanner : Scanner} {before token rest : List Char} {rounds : Nat}

/-- The cursor reads a word up to the first character that ends it. -/
theorem Stands.readWord (hstands : scanner.Stands before token rest)
    (hrounds : rest.length < rounds) :
    ∃ moved, readWord rounds scanner = .ok moved ∧
      moved.Stands before (token ++ rest.takeWhile fun char => !isStop char)
        (rest.dropWhile fun char => !isStop char) := by
  induction rest generalizing scanner token rounds with
  | nil =>
    obtain ⟨moved, hnext, hmoved, -⟩ := hstands.next_nil
    obtain ⟨rounds, rfl⟩ := Nat.exists_eq_succ_of_ne_zero (Nat.ne_zero_of_lt hrounds)
    exact ⟨moved, by simp [Scanner.readWord, hnext], by simpa using hmoved⟩
  | cons char rest ih =>
    obtain ⟨moved, back, hnext, hmoved, hback, hstay⟩ := hstands.next_cons
    obtain ⟨rounds, rfl⟩ := Nat.exists_eq_succ_of_ne_zero (Nat.ne_zero_of_lt hrounds)
    by_cases hstop : isStop char = true
    · exact ⟨back, by simp [Scanner.readWord, hnext, hstop, hback], by simpa [hstop] using hstay⟩
    · obtain ⟨last, hlast, hread⟩ := ih hmoved (Nat.lt_of_succ_lt_succ hrounds)
      exact ⟨last, by simp [Scanner.readWord, hnext, hstop, hlast], by simpa [hstop] using hread⟩

/-- The cursor reads a comment up to the end of its line. -/
theorem Stands.readComment (hstands : scanner.Stands before token rest)
    (hrounds : rest.length < rounds) :
    ∃ moved, readComment rounds scanner = .ok moved ∧
      moved.Stands before (token ++ (cutComment rest).1) (cutComment rest).2 := by
  induction rest generalizing scanner token rounds with
  | nil =>
    obtain ⟨moved, hnext, hmoved, -⟩ := hstands.next_nil
    obtain ⟨rounds, rfl⟩ := Nat.exists_eq_succ_of_ne_zero (Nat.ne_zero_of_lt hrounds)
    exact ⟨moved, by simp [Scanner.readComment, hnext], by simpa [cutComment] using hmoved⟩
  | cons char rest ih =>
    obtain ⟨moved, -, hnext, hmoved, -⟩ := hstands.next_cons
    obtain ⟨rounds, rfl⟩ := Nat.exists_eq_succ_of_ne_zero (Nat.ne_zero_of_lt hrounds)
    by_cases hend : (char == '\n' || char == '\r') = true
    · refine ⟨moved, ?_, ?_⟩
      · simp only [Scanner.readComment, hnext, hend, if_true]
      · simpa only [cutComment, hend, if_true] using hmoved
    · obtain ⟨last, hlast, hread⟩ := ih hmoved (Nat.lt_of_succ_lt_succ hrounds)
      refine ⟨last, ?_, ?_⟩
      · simp only [Scanner.readComment, hnext, hend, hlast]
        rfl
      · simpa [cutComment, hend] using hread

theorem Stands.accept_nil (hstands : scanner.Stands before token []) (wanted : Char) :
    ∃ moved, scanner.accept wanted = .ok (false, moved) ∧ moved.Stands before token [] := by
  obtain ⟨moved, hnext, hmoved, -⟩ := hstands.next_nil
  exact ⟨moved, by simp [accept, hnext], hmoved⟩

theorem Stands.accept_self {char : Char} (hstands : scanner.Stands before token (char :: rest)) :
    ∃ moved, scanner.accept char = .ok (true, moved) ∧
      moved.Stands before (token ++ [char]) rest := by
  obtain ⟨moved, -, hnext, hmoved, -⟩ := hstands.next_cons
  exact ⟨moved, by simp [accept, hnext], hmoved⟩

/-- The cursor goes back where it does not find the wanted character. -/
theorem Stands.accept_other {char wanted : Char} (hother : char ≠ wanted)
    (hstands : scanner.Stands before token (char :: rest)) :
    ∃ back, scanner.accept wanted = .ok (false, back) ∧
      back.Stands before token (char :: rest) := by
  obtain ⟨moved, back, hnext, -, hback, hstay⟩ := hstands.next_cons
  exact ⟨back, by simp [accept, hnext, hother, hback, Except.map], hstay⟩

theorem Stands.require_cons {char : Char} (hstands : scanner.Stands before token (char :: rest)) :
    ∃ moved, scanner.require = .ok moved ∧ moved.Stands before (token ++ [char]) rest := by
  obtain ⟨moved, -, hnext, hmoved, -⟩ := hstands.next_cons
  exact ⟨moved, by simp [require, hnext], hmoved⟩

theorem Stands.require_nil (hstands : scanner.Stands before token []) :
    scanner.require = .error (.openString (endSpan (before ++ token))) := by
  obtain ⟨moved, hnext, -, hplace⟩ := hstands.next_nil
  have htext := hstands.text_eq
  rw [List.append_nil] at htext
  simp [require, hnext, hplace, htext, Position.span, endSpan]

/-- The cursor reads a string up to the quote that closes it, or finds that the text ends
before. -/
theorem Stands.readString (hstands : scanner.Stands before token rest)
    (hrounds : rest.length < rounds) :
    match cutString rest with
    | some (body, remaining) => ∃ moved, readString rounds scanner = .ok moved ∧
        moved.Stands before (token ++ body) remaining
    | none => readString rounds scanner =
        .error (.openString (endSpan (before ++ (token ++ rest)))) := by
  fun_induction cutString rest generalizing scanner token rounds with
  | case1 =>
    obtain ⟨rounds, rfl⟩ := Nat.exists_eq_succ_of_ne_zero (Nat.ne_zero_of_lt hrounds)
    obtain ⟨first, hescape, hfirst⟩ := hstands.accept_nil '\\'
    obtain ⟨second, hclose, hsecond⟩ := hfirst.accept_nil '"'
    simp [Scanner.readString, bind, Except.bind, hescape, hclose, hsecond.require_nil]
  | case2 =>
    obtain ⟨rounds, rfl⟩ := Nat.exists_eq_succ_of_ne_zero (Nat.ne_zero_of_lt hrounds)
    obtain ⟨first, hescape, hfirst⟩ := hstands.accept_self
    simp [Scanner.readString, bind, Except.bind, hescape, hfirst.require_nil]
  | case3 char rest ih =>
    obtain ⟨rounds, rfl⟩ := Nat.exists_eq_succ_of_ne_zero (Nat.ne_zero_of_lt hrounds)
    obtain ⟨first, hescape, hfirst⟩ := hstands.accept_self
    obtain ⟨second, hsecond, hread⟩ := hfirst.require_cons
    have hrest : rest.length < rounds := by
      simp only [List.length_cons] at hrounds
      omega
    have hround : Scanner.readString (rounds + 1) scanner = Scanner.readString rounds second := by
      simp [Scanner.readString, bind, Except.bind, hescape, hsecond]
    have hloop := ih hread hrest
    rw [← hround] at hloop
    cases hcut : cutString rest with
    | none => simpa [hcut] using hloop
    | some cut => simpa [hcut] using hloop
  | case4 char rest hlast hmore hquote =>
    obtain ⟨rounds, rfl⟩ := Nat.exists_eq_succ_of_ne_zero (Nat.ne_zero_of_lt hrounds)
    obtain rfl : char = '"' := by simpa using hquote
    obtain ⟨first, hescape, hfirst⟩ := hstands.accept_other (ne_backslash hlast hmore)
    obtain ⟨second, hclose, hsecond⟩ := hfirst.accept_self
    refine ⟨second, ?_, hsecond⟩
    simp [Scanner.readString, bind, Except.bind, hescape, hclose, pure, Except.pure]
  | case5 char rest hlast hmore hquote ih =>
    obtain ⟨rounds, rfl⟩ := Nat.exists_eq_succ_of_ne_zero (Nat.ne_zero_of_lt hrounds)
    obtain ⟨first, hescape, hfirst⟩ := hstands.accept_other (ne_backslash hlast hmore)
    obtain ⟨second, hclose, hsecond⟩ :=
      @Stands.accept_other _ _ _ _ char '"' (by simpa using hquote) hfirst
    obtain ⟨third, hthird, hread⟩ := hsecond.require_cons
    have hround : Scanner.readString (rounds + 1) scanner = Scanner.readString rounds third := by
      simp [Scanner.readString, bind, Except.bind, hescape, hclose, hthird]
    have hloop := ih hread (Nat.lt_of_succ_lt_succ hrounds)
    rw [← hround] at hloop
    cases hcut : cutString rest with
    | none => simpa [hcut] using hloop
    | some cut => simpa [hcut] using hloop

end Loops

section Tokens

variable {scanner : Scanner} {before rest : List Char} {rounds : Nat}

/-- After its first character, the cursor reads the piece that is cut off there. -/
theorem Stands.readPiece {first : Char} (hstands : scanner.Stands before [first] rest)
    (hrounds : rest.length < rounds) :
    if (cut first rest).1.isUnclosed then
      readPiece rounds first scanner =
        .error (.openString (endSpan (before ++ first :: rest)))
    else
      ∃ moved, readPiece rounds first scanner =
          .ok ((cut first rest).1.tokenType?.map
            fun type => tokenAfter before type (cut first rest).1.chars, moved) ∧
        moved.Stands (before ++ (cut first rest).1.chars) [] (cut first rest).2 := by
  unfold cut Scanner.readPiece
  split
  · rename_i hopen
    obtain rfl : first = '(' := by simpa using hopen
    exact ⟨scanner.markStart, by rw [hstands.emit_eq (by simp)]; rfl, hstands.markStart⟩
  split
  · rename_i hclose
    obtain rfl : first = ')' := by simpa using hclose
    exact ⟨scanner.markStart, by rw [hstands.emit_eq (by simp)]; rfl, hstands.markStart⟩
  split
  · rename_i hcomment
    obtain rfl : first = ';' := by simpa using hcomment
    obtain ⟨moved, hread, hmoved⟩ := hstands.readComment hrounds
    exact ⟨moved.markStart, by rw [hread]; rfl, hmoved.markStart⟩
  split
  · rename_i hquote
    obtain rfl : first = '"' := by simpa using hquote
    have hstring := hstands.readString hrounds
    cases hcut : cutString rest with
    | none =>
      rw [hcut] at hstring
      simp only [Piece.isUnclosed, if_true, hstring, Except.map]
      rfl
    | some cut =>
      rw [hcut] at hstring
      obtain ⟨moved, hread, hmoved⟩ := hstring
      exact ⟨moved.markStart, by rw [hread, Except.map, hmoved.emit_eq (by simp)]; rfl,
        hmoved.markStart⟩
  split
  · exact ⟨scanner.markStart, rfl, hstands.markStart⟩
  · obtain ⟨moved, hread, hmoved⟩ := hstands.readWord hrounds
    exact ⟨moved.markStart, by rw [hread, Except.map, hmoved.emit_eq (by simp)]; rfl,
      hmoved.markStart⟩

/-- A string that is not closed goes to the end of the text. -/
theorem cut_of_isUnclosed {first : Char} (hunclosed : (cut first rest).1.isUnclosed = true) :
    (cut first rest).1.tokenType? = none ∧ (cut first rest).2 = [] := by
  have hends := endsAt_cut first rest
  cases hpiece : (cut first rest).1 with
  | unclosed body =>
    rw [hpiece] at hends
    exact ⟨rfl, hends.2⟩
  | _ => simp [hpiece, Piece.isUnclosed] at hunclosed

/-- Some tokens of a text, and what comes after them at its end. -/
def streamOf (source : Source) (text : List Char) (tokens : List Token) (isBroken : Bool) :
    TokenStream :=
  if isBroken then
    ⟨tokens, some (.malformed .unterminated (source.locate (endSpan text)))⟩
  else ⟨tokens ++ [endToken text], none⟩

theorem tokenize_eq_streamOf (name : Option String) (text : String) :
    tokenize name text =
      streamOf ⟨name, some text⟩ text.toList (tokensFrom .start (pieces text.toList))
        ((pieces text.toList).any Piece.isUnclosed) := rfl

theorem streamOf_append (source : Source) (text : List Char) (first tokens : List Token)
    (isBroken : Bool) :
    streamOf source text (first ++ tokens) isBroken =
      { streamOf source text tokens isBroken with
        tokens := first ++ (streamOf source text tokens isBroken).tokens } := by
  cases isBroken <;> simp [streamOf]

/-- From the start of a token on, the cursor reads the tokens among the pieces of the
rest of the text. -/
theorem Stands.readAll (source : Source) (hstands : scanner.Stands before [] rest)
    (hrounds : rest.length < rounds) :
    readAll source rounds scanner =
      .ok (streamOf source (before ++ rest) (tokensFrom (Position.start.after before) (pieces rest))
        ((pieces rest).any Piece.isUnclosed)) := by
  fun_induction pieces rest generalizing scanner before rounds with
  | case1 =>
    obtain ⟨rounds, rfl⟩ := Nat.exists_eq_succ_of_ne_zero (Nat.ne_zero_of_lt hrounds)
    obtain ⟨moved, hnext, -, hplace⟩ := hstands.next_nil
    have htext := hstands.text_eq
    simp only [Scanner.readAll, hnext, hplace, htext]
    rfl
  | case2 first rest ih =>
    obtain ⟨rounds, rfl⟩ := Nat.exists_eq_succ_of_ne_zero (Nat.ne_zero_of_lt hrounds)
    obtain ⟨moved, -, hnext, hmoved, -⟩ := hstands.next_cons
    have hpiece := hmoved.readPiece (Nat.lt_of_succ_lt hrounds)
    simp only [Scanner.readAll, hnext]
    cases hunclosed : (cut first rest).1.isUnclosed with
    | true =>
      obtain ⟨htype, hlast⟩ := cut_of_isUnclosed hunclosed
      rw [hunclosed, if_pos rfl] at hpiece
      simp [hpiece, streamOf, tokensFrom, hunclosed, htype, hlast, pieces]
    | false =>
      rw [hunclosed, if_neg Bool.false_ne_true] at hpiece
      obtain ⟨following, hread, hfollowing⟩ := hpiece
      have hshorter := length_cut_lt first rest
      have hloop := @ih following _ rounds hfollowing (by omega)
      rw [List.append_assoc, cut_append] at hloop
      simp only [hread, hloop, Except.map, Except.ok.injEq]
      rw [← streamOf_append, List.any_cons, hunclosed, Bool.false_or, Position.after_append,
        tokensFrom]
      cases (cut first rest).1.tokenType? with
      | none => rfl
      | some type => rfl

/-- The tokens that are read row by row are those of the text.  The cursor never fails to
go back, and a round for each character and one for the end are enough. -/
theorem scan_eq (name : Option String) (text : String) {rounds : Nat}
    (hrounds : text.length < rounds) :
    scan rounds name text = .ok (tokenize name text) := by
  rw [← String.length_toList] at hrounds
  rw [scan, (stands_begin text.toList).readAll ⟨name, some text⟩ hrounds, tokenize_eq_streamOf]
  rfl

end Tokens

end NescTree.Notation.Scanner
