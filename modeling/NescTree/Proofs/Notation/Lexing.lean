import NescTree.Proofs.Notation.Filler
import NescTree.Proofs.Notation.Rows

/-!
# Tokens and the text they come from

Every token is a stretch of the text, at the row and column it carries, and nothing but
filler stands between two tokens.  The tokens are followed along the text with the
characters in front of the next piece: they give its place, they end in the filler since
the last token, and they tell that a word starts where a word may start.
-/

namespace NescTree.Notation

def stops : List Char := ['(', ')', ' ', '\t', '\r', '\n', ';', '"']

theorem mem_stops_iff {char : Char} : char ∈ stops ↔ isStop char = true := by
  simp only [stops, isStop, isGap, List.mem_cons, List.not_mem_nil, or_false, Bool.or_eq_true,
    beq_iff_eq]
  grind

namespace Token

/-- How many characters of a text stand in front of a token. -/
def start (text : List Char) (token : Token) : Nat := offset text token.span

def stop (text : List Char) (token : Token) : Nat := token.start text + token.span.length

/-- Whether the value of a token is what stands in the text at the place of the token. -/
structure Placed (text : List Char) (token : Token) : Prop where
  row_pos : 0 < token.span.row
  col_pos : 0 < token.span.col
  length_pos : 0 < token.span.length
  on_row : ∃ row, (rows text)[token.span.row - 1]? = some row ∧ token.span.col ≤ row.length
  length_eq : token.span.length = token.value.length
  value_eq : token.value.toList =
    (sourceFrom text token.span.row token.span.col).take token.span.length

/-- Whether a token stands where one of its type starts and ends. -/
def Shaped (text : List Char) (token : Token) : Prop :=
  match token.type with
  | .opening => token.value = "("
  | .closing => token.value = ")"
  | .word =>
    token.value ≠ "" ∧ (∀ char ∈ token.value.toList, char ∉ stops) ∧
      (∀ char ∈ (text.take (token.start text)).getLast?, char ∈ stops) ∧
      ∀ char ∈ (text.drop (token.stop text)).head?, char ∈ stops
  | .string =>
    text[token.start text]? = some '"' ∧
      ∃ index, ClosesFirstAt (text.drop (token.start text + 1)) index ∧
        token.span.length = index + 2
  | .finish => False

end Token

/-- What stands in front of each token, from the token before it on. -/
def gaps (text : List Char) : Nat → List Token → List (List Char)
  | _, [] => []
  | begin, token :: rest =>
    (text.take (token.start text)).drop begin :: gaps text (token.stop text) rest

def lastStop (text : List Char) : Nat → List Token → Nat
  | begin, [] => begin
  | _, token :: rest => lastStop text (token.stop text) rest

/-- Tokens that follow each other along a text, from an index on, with filler between
them, up to an end that may be an open string. -/
inductive Follows (text : List Char) : Nat → List Token → Bool → Prop
  | done {begin : Nat} (htail : TrailingFiller (text.drop begin)) : Follows text begin [] false
  | broken {begin : Nat} (htail : OpenString (text.drop begin)) : Follows text begin [] true
  | token {begin : Nat} {token : Token} {rest : List Token} {isBroken : Bool}
      (hbegin : begin ≤ token.start text)
      (hgap : Filler ((text.take (token.start text)).drop begin))
      (hplaced : token.Placed text) (hshaped : token.Shaped text)
      (hrest : Follows text (token.stop text) rest isBroken) :
      Follows text begin (token :: rest) isBroken

namespace Follows

variable {text : List Char} {begin : Nat} {tokens : List Token} {isBroken : Bool}

theorem placed_and_shaped (hfollows : Follows text begin tokens isBroken) :
    ∀ token ∈ tokens, token.Placed text ∧ token.Shaped text := by
  induction hfollows with
  | done htail => simp
  | broken htail => simp
  | token hbegin hgap hplaced hshaped hrest ih =>
    exact List.forall_mem_cons.2 ⟨⟨hplaced, hshaped⟩, ih⟩

theorem filler_of_mem_gaps (hfollows : Follows text begin tokens isBroken) :
    ∀ gap ∈ gaps text begin tokens, Filler gap := by
  induction hfollows with
  | done htail => simp [gaps]
  | broken htail => simp [gaps]
  | token hbegin hgap hplaced hshaped hrest ih => exact List.forall_mem_cons.2 ⟨hgap, ih⟩

theorem le_start (hfollows : Follows text begin tokens isBroken) :
    ∀ token ∈ tokens, begin ≤ token.start text := by
  induction hfollows with
  | done htail => simp
  | broken htail => simp
  | @token begin token rest isBroken hbegin hgap hplaced hshaped hrest ih =>
    refine List.forall_mem_cons.2 ⟨hbegin, ?_⟩
    intro later hlater
    have hle := ih later hlater
    rw [Token.stop] at hle
    omega

/-- Each token starts after the end of those before it. -/
theorem pairwise (hfollows : Follows text begin tokens isBroken) :
    tokens.Pairwise fun first second =>
      first.start text < second.start text ∧ first.stop text ≤ second.start text := by
  induction hfollows with
  | done htail => exact .nil
  | broken htail => exact .nil
  | @token begin token rest isBroken hbegin hgap hplaced hshaped hrest ih =>
    refine List.pairwise_cons.2 ⟨?_, ih⟩
    intro later hlater
    have hle := hrest.le_start later hlater
    have hpositive := hplaced.length_pos
    rw [Token.stop] at hle ⊢
    omega

theorem tail (hfollows : Follows text begin tokens isBroken) :
    if isBroken then OpenString (text.drop (lastStop text begin tokens))
    else TrailingFiller (text.drop (lastStop text begin tokens)) := by
  induction hfollows with
  | done htail => simpa [lastStop] using htail
  | broken htail => simpa [lastStop] using htail
  | token hbegin hgap hplaced hshaped hrest ih => simpa [lastStop] using ih

end Follows

/-- The token that some characters are, after the characters in front of them. -/
def tokenAfter (before : List Char) (type : TokenType) (chars : List Char) : Token :=
  ⟨type, String.ofList chars, (Position.start.after before).span chars.length⟩

section

variable {text before chars rest : List Char}

/-- The place counted up to a stretch of a text is the place of the stretch. -/
theorem start_and_placed_tokenAfter (htext : text = before ++ (chars ++ rest))
    (hchars : chars ≠ []) (type : TokenType) :
    (tokenAfter before type chars).start text = before.length ∧
      (tokenAfter before type chars).Placed text := by
  obtain ⟨index, column, row, hrow, hcolumn, hlength, hafter⟩ :=
    Position.after_eq Position.start before (List.append_ne_nil_of_left_ne_nil hchars rest)
  rw [← htext] at hrow hlength
  have hcol : (if index = 0 then Position.start.col else 1) = 1 := by
    split <;> rfl
  have hspan : (Position.start.after before).span chars.length =
      ⟨index + 1, column + 1, chars.length⟩ := by
    rw [hafter, hcol, Position.span, Nat.add_comm column 1, Nat.add_comm index 1]
    rfl
  have hoffset : offset text ⟨index + 1, column + 1, chars.length⟩ = before.length := hlength
  have hsource : sourceFrom text (index + 1) (column + 1) = chars ++ rest := by
    have hdrop := sourceFrom_eq_drop_offset text ⟨index + 1, column + 1, chars.length⟩
    rw [hoffset, htext, List.drop_left] at hdrop
    rw [htext]
    exact hdrop
  rw [tokenAfter, hspan]
  refine ⟨hoffset, ?_⟩
  exact {
    row_pos := Nat.succ_pos index
    col_pos := Nat.succ_pos column
    length_pos := List.length_pos_iff.2 hchars
    on_row := ⟨row, hrow, hcolumn⟩
    length_eq := by simp
    value_eq := by simp [hsource] }

theorem stop_tokenAfter (htext : text = before ++ (chars ++ rest)) (hchars : chars ≠ [])
    (type : TokenType) :
    (tokenAfter before type chars).stop text = (before ++ chars).length := by
  rw [Token.stop, (start_and_placed_tokenAfter htext hchars type).1, List.length_append]
  rfl

end

/-- A token among some pieces is a stretch of their characters, at the place that is counted
up to it. -/
theorem exists_stretch_of_mem_tokensFrom {position : Position} {parts : List Piece} {token : Token}
    (hparts : Separated parts) (hmem : token ∈ tokensFrom position parts) :
    ∃ before type chars rest,
      token = ⟨type, String.ofList chars, (position.after before).span chars.length⟩ ∧
        chars ≠ [] ∧ parts.flatMap Piece.chars = before ++ (chars ++ rest) := by
  induction parts generalizing position with
  | nil => simp [tokensFrom] at hmem
  | cons piece parts ih =>
    obtain ⟨hends, hrest⟩ := hparts
    have hfirst :
        (∃ type, token = ⟨type, String.ofList piece.chars, position.span piece.chars.length⟩) ∨
          token ∈ tokensFrom (position.after piece.chars) parts := by
      rw [tokensFrom] at hmem
      cases htype : piece.tokenType? with
      | none =>
        rw [htype] at hmem
        exact .inr hmem
      | some type =>
        rw [htype] at hmem
        exact (List.mem_cons.1 hmem).imp_left fun heq => ⟨type, heq⟩
    rw [List.flatMap_cons]
    obtain ⟨type, rfl⟩ | hlater := hfirst
    · exact ⟨[], type, piece.chars, parts.flatMap Piece.chars, rfl,
        chars_ne_nil_of_endsAt hends, rfl⟩
    · obtain ⟨before, type, chars, rest, rfl, hchars, htext⟩ := ih hrest hlater
      refine ⟨piece.chars ++ before, type, chars, rest, ?_, hchars, ?_⟩
      · rw [Position.after_append]
      · rw [htext, List.append_assoc]

/-- A token of a text is a stretch of it. -/
theorem exists_tokenAfter_of_mem {text : List Char} {token : Token}
    (hmem : token ∈ tokensFrom .start (pieces text)) :
    ∃ before type chars rest, token = tokenAfter before type chars ∧ chars ≠ [] ∧
      text = before ++ (chars ++ rest) := by
  have hfound := exists_stretch_of_mem_tokensFrom (separated_pieces text) hmem
  rwa [flatMap_chars_pieces] at hfound

/-- Whether a word that starts with the rest of a text would not be the end of a longer
one. -/
def Boundary (before rest : List Char) : Prop :=
  (∀ char ∈ before.getLast?, char ∈ stops) ∨ ∀ char ∈ rest.head?, char ∈ stops

theorem boundary_append_stop {last : Char} (hlast : last ∈ stops) (front rest : List Char) :
    Boundary (front ++ [last]) rest := by
  left
  simpa using hlast

/-- Where a piece ends, no word is cut in two. -/
theorem boundary_of_endsAt {piece : Piece} {rest : List Char} (hends : piece.EndsAt rest)
    (before : List Char) : Boundary (before ++ piece.chars) rest := by
  cases piece with
  | gap char =>
    have hgap : isGap char = true := hends
    exact boundary_append_stop (mem_stops_iff.2 (isStop_of_isGap hgap)) before rest
  | comment body =>
    obtain ⟨inner, last, rfl, -, hlast⟩ | ⟨rfl, -⟩ := comment_cases hends
    · have hstop : last ∈ stops := by
        obtain rfl | rfl := hlast <;> decide
      simpa [Piece.chars] using boundary_append_stop hstop (before ++ ';' :: inner) rest
    · right
      simp
  | opening => exact boundary_append_stop (by decide) before rest
  | closing => exact boundary_append_stop (by decide) before rest
  | word chars =>
    right
    intro char hchar
    exact mem_stops_iff.2 (hends.2 char hchar)
  | string body =>
    have hcut : cutString (body ++ rest) = some (body, rest) := hends
    obtain ⟨inner, meaning, rfl, -⟩ := unescapeInner_of_cutString hcut
    have hstop : '"' ∈ stops := by decide
    simpa [Piece.chars] using boundary_append_stop hstop (before ++ '"' :: inner) rest
  | unclosed body =>
    right
    simp [hends.2]

/-- A piece that is a token starts and ends where a token of its type does. -/
theorem shaped_of_endsAt {text before rest : List Char} {piece : Piece} {type : TokenType}
    (htext : text = before ++ (piece.chars ++ rest)) (hends : piece.EndsAt rest)
    (hboundary : Boundary before (piece.chars ++ rest)) (htype : piece.tokenType? = some type) :
    (tokenAfter before type piece.chars).Shaped text := by
  have hchars := chars_ne_nil_of_endsAt hends
  have hstart := (start_and_placed_tokenAfter htext hchars type).1
  have hstop := stop_tokenAfter htext hchars type
  cases piece with
  | gap char => simp [Piece.tokenType?] at htype
  | comment body => simp [Piece.tokenType?] at htype
  | unclosed body => simp [Piece.tokenType?] at htype
  | opening =>
    cases htype
    rfl
  | closing =>
    cases htype
    rfl
  | word chars =>
    cases htype
    obtain ⟨hword, hrest⟩ := hends
    have hinside : ∀ char ∈ chars, char ∉ stops := by
      intro char hchar
      simp [mem_stops_iff, not_isStop_of_mem_bareWord hword hchar]
    have hbefore : ∀ char ∈ before.getLast?, char ∈ stops := by
      obtain hbefore | hhead := hboundary
      · exact hbefore
      · obtain ⟨head, tail, rfl⟩ := List.exists_cons_of_ne_nil hchars
        exact absurd (hhead head rfl) (hinside head (by simp))
    refine ⟨?_, ?_, ?_, ?_⟩
    · intro hempty
      exact hchars (by simpa [tokenAfter] using hempty)
    · simpa [tokenAfter, Piece.chars] using hinside
    · rw [hstart, htext, List.take_left]
      exact hbefore
    · rw [hstop, htext, ← List.append_assoc, List.drop_left]
      intro char hchar
      exact mem_stops_iff.2 (hrest char hchar)
  | string body =>
    cases htype
    have hcut : cutString (body ++ rest) = some (body, rest) := hends
    obtain ⟨index, hlength, hcloses⟩ := closesFirstAt_of_cutString hcut
    have hbody : text.drop (before.length + 1) = body ++ rest := by
      rw [htext]
      simp [Piece.chars, List.drop_append]
    refine ⟨?_, index, ?_, ?_⟩
    · rw [hstart, htext]
      simp [Piece.chars]
    · rw [hstart, hbody]
      exact hcloses
    · simp [tokenAfter, Position.span, Piece.chars, hlength]

theorem eq_nil_of_flatMap_chars {parts : List Piece} (hparts : Separated parts)
    (hempty : parts.flatMap Piece.chars = []) : parts = [] := by
  rw [← pieces_flatMap_chars hparts, hempty, pieces]

/-- A piece that is no token is filler, or it goes to the end of the text. -/
theorem filler_or_last {piece : Piece} {rest : List Char} (hends : piece.EndsAt rest)
    (htype : piece.tokenType? = none) :
    (Filler piece.chars ∧ piece.isUnclosed = false) ∨
      (rest = [] ∧ ∀ skipped, Filler skipped →
        if piece.isUnclosed then OpenString (skipped ++ piece.chars)
        else TrailingFiller (skipped ++ piece.chars)) := by
  cases piece with
  | gap char =>
    have hgap : isGap char = true := hends
    exact .inl ⟨.blank (isGap_iff.1 hgap) .nil, rfl⟩
  | comment body =>
    obtain ⟨inner, last, rfl, hinner, hlast⟩ | ⟨rfl, hbody⟩ := comment_cases hends
    · exact .inl ⟨.comment hinner hlast .nil, rfl⟩
    · exact .inr ⟨rfl, fun skipped hskipped => .inr ⟨skipped, body, rfl, hskipped, hbody⟩⟩
  | unclosed body =>
    obtain ⟨hcut, rfl⟩ := hends
    exact .inr ⟨rfl, fun skipped hskipped =>
      ⟨skipped, body, rfl, hskipped, cutString_eq_none_iff.1 hcut⟩⟩
  | opening => simp [Piece.tokenType?] at htype
  | closing => simp [Piece.tokenType?] at htype
  | word chars => simp [Piece.tokenType?] at htype
  | string body => simp [Piece.tokenType?] at htype

theorem isUnclosed_of_tokenType? {piece : Piece} {type : TokenType}
    (htype : piece.tokenType? = some type) : piece.isUnclosed = false := by
  cases piece with
  | unclosed body => simp [Piece.tokenType?] at htype
  | _ => rfl

/-- The tokens among separated pieces follow each other along the text, after the
characters in front of the first piece. -/
theorem follows_tokensFrom {text before : List Char} {parts : List Piece} {begin : Nat}
    (htext : text = before ++ parts.flatMap Piece.chars) (hparts : Separated parts)
    (hboundary : Boundary before (parts.flatMap Piece.chars)) (hbegin : begin ≤ before.length)
    (hgap : Filler (before.drop begin)) :
    Follows text begin (tokensFrom (Position.start.after before) parts)
      (parts.any Piece.isUnclosed) := by
  induction parts generalizing before begin with
  | nil =>
    refine .done (.inl ?_)
    rw [htext, List.flatMap_nil, List.append_nil]
    exact hgap
  | cons piece parts ih =>
    rw [List.flatMap_cons] at htext hboundary
    obtain ⟨hends, hrest⟩ := hparts
    have hnext : text = before ++ piece.chars ++ parts.flatMap Piece.chars := by
      rw [htext, List.append_assoc]
    have hstep := boundary_of_endsAt hends before
    rw [List.any_cons, tokensFrom, ← Position.after_append]
    cases htype : piece.tokenType? with
    | some type =>
      have hchars := chars_ne_nil_of_endsAt hends
      obtain ⟨hstart, hplaced⟩ := start_and_placed_tokenAfter htext hchars type
      have hstop := stop_tokenAfter htext hchars type
      rw [isUnclosed_of_tokenType? htype, Bool.false_or]
      change Follows text begin (tokenAfter before type piece.chars :: _) _
      apply Follows.token
      · rw [hstart]
        exact hbegin
      · rw [hstart, htext, List.take_left]
        exact hgap
      · exact hplaced
      · exact shaped_of_endsAt htext hends hboundary htype
      · rw [hstop]
        exact ih hnext hrest hstep (Nat.le_refl _) (by simpa using Filler.nil)
    | none =>
      obtain ⟨hfiller, hclosed⟩ | ⟨hempty, htail⟩ := filler_or_last hends htype
      · rw [hclosed, Bool.false_or]
        apply ih hnext hrest hstep
        · rw [List.length_append]
          omega
        · rw [List.drop_append_of_le_length hbegin]
          exact hgap.append hfiller
      · obtain rfl := eq_nil_of_flatMap_chars hrest hempty
        have hdrop : text.drop begin = before.drop begin ++ piece.chars := by
          rw [hnext, hempty, List.append_nil, List.drop_append_of_le_length hbegin]
        have hfound := htail (before.drop begin) hgap
        rw [← hdrop] at hfound
        rw [List.any_nil, Bool.or_false]
        cases hunclosed : piece.isUnclosed with
        | true => exact .broken (by simpa [hunclosed] using hfound)
        | false => exact .done (by simpa [hunclosed] using hfound)

/-- The tokens of a text are the stretches of the text at their places, in order and
without overlap.  Parentheses stand alone, words are as long as possible, and strings end
at the first quote that closes them.  Between the tokens there is filler only.  If the
last token is followed by a string without an end, a fault comes after the tokens, and
otherwise the token for the end of the text; both stand at the start of the row after the
last line feed. -/
theorem tokens_cover_source (name : Option String) (text : String) :
    ∃ tokens : List Token,
      (∀ token ∈ tokens, token.Placed text.toList ∧ token.Shaped text.toList) ∧
      tokens.Pairwise (fun first second =>
        first.start text.toList < second.start text.toList ∧
          first.stop text.toList ≤ second.start text.toList) ∧
      (∀ gap ∈ gaps text.toList 0 tokens, Filler gap) ∧
      (OpenString (text.toList.drop (lastStop text.toList 0 tokens)) →
        tokenize name text =
          ⟨tokens, some (.malformed .unterminated
            (some ⟨⟨name, some text⟩, text.toList.count '\n' + 1, 1, 1⟩))⟩) ∧
      (¬ OpenString (text.toList.drop (lastStop text.toList 0 tokens)) →
        TrailingFiller (text.toList.drop (lastStop text.toList 0 tokens)) ∧
          tokenize name text =
            ⟨tokens ++ [⟨.finish, "EOF", ⟨text.toList.count '\n' + 1, 1, 1⟩⟩], none⟩) := by
  have htext := (flatMap_chars_pieces text.toList).symm
  have hfollows : Follows text.toList 0 (tokensFrom .start (pieces text.toList))
      ((pieces text.toList).any Piece.isUnclosed) :=
    @follows_tokensFrom text.toList [] _ 0 htext (separated_pieces text.toList)
      (.inl (by simp)) (Nat.le_refl 0) .nil
  have htail := hfollows.tail
  refine ⟨tokensFrom .start (pieces text.toList), hfollows.placed_and_shaped, hfollows.pairwise,
    hfollows.filler_of_mem_gaps, ?_, ?_⟩
  · intro hopen
    cases hunclosed : (pieces text.toList).any Piece.isUnclosed with
    | true => simp [tokenize, hunclosed, endSpan, Source.locate]
    | false =>
      rw [hunclosed] at htail
      exact absurd hopen (TrailingFiller.not_openString htail)
  · intro hclosed
    cases hunclosed : (pieces text.toList).any Piece.isUnclosed with
    | true =>
      rw [hunclosed] at htail
      exact absurd htail hclosed
    | false =>
      rw [hunclosed] at htail
      exact ⟨htail, by simp [tokenize, hunclosed, endToken, endSpan]⟩

end NescTree.Notation
