import NescTree.Notation.Reader

/-!
# Reading as a fold over the tokens

The reader takes tokens with one token of lookahead.  On a text without an open
string this is the same as taking the tokens one after the other, up to the first
that is refused, and looking at the situation that is left at the end.  What can be
said about single tokens then carries over to whole texts.
-/

namespace NescTree.Notation

/-- What the reader uses of a token besides its place. -/
abbrev Lexeme := TokenType × String

def Token.lexeme (token : Token) : Lexeme := (token.type, token.value)

def Piece.lexeme? (piece : Piece) : Option Lexeme :=
  piece.tokenType?.map fun type => (type, String.ofList piece.chars)

theorem map_lexeme_tokensFrom (position : Position) (parts : List Piece) :
    (tokensFrom position parts).map Token.lexeme = parts.filterMap Piece.lexeme? := by
  induction parts generalizing position with
  | nil => rfl
  | cons piece parts ih =>
    cases htype : piece.tokenType? <;>
      simp [tokensFrom, htype, Piece.lexeme?, Token.lexeme, ← ih (position.after piece.chars)]

theorem type_ne_finish_of_mem_tokensFrom {position : Position} {parts : List Piece}
    {token : Token} (hmem : token ∈ tokensFrom position parts) : token.type ≠ .finish := by
  have hlexeme : token.lexeme ∈ parts.filterMap Piece.lexeme? := by
    rw [← map_lexeme_tokensFrom position parts]
    exact List.mem_map_of_mem hmem
  obtain ⟨piece, -, hpiece⟩ := List.mem_filterMap.1 hlexeme
  intro hfinish
  cases piece <;> simp [Piece.lexeme?, Piece.tokenType?, Token.lexeme, Prod.ext_iff] at hpiece
  all_goals
    rw [hfinish] at hpiece
    exact absurd hpiece.1 (by decide)

namespace Situation

def step (source : Source) (situation : Situation) (token : Token) :
    Except Fault Situation :=
  match situation.refusal? source token with
  | some fault => .error fault
  | none => situation.take source token

/-- Take tokens one after the other, up to the first that is refused. -/
def takeAll (source : Source) (situation : Situation) (tokens : List Token) :
    Except Fault Situation :=
  tokens.foldlM (step source) situation

def conclude (source : Source) (last : Token) (situation : Situation) :
    Except Fault (List Tree) :=
  match situation with
  | .between reversed => .ok reversed.reverse
  | _ => .error ((situation.refusal? source last).getD .exhausted)

@[simp]
theorem takeAll_nil (source : Source) (situation : Situation) :
    situation.takeAll source [] = .ok situation := rfl

theorem takeAll_cons (source : Source) (situation : Situation) (token : Token)
    (tokens : List Token) :
    situation.takeAll source (token :: tokens) =
      (situation.step source token).bind fun next => next.takeAll source tokens := by
  rw [takeAll, List.foldlM_cons]
  rfl

theorem takeAll_append (source : Source) (situation : Situation) (first second : List Token) :
    situation.takeAll source (first ++ second) =
      (situation.takeAll source first).bind fun next => next.takeAll source second := by
  rw [takeAll, List.foldlM_append]
  rfl

end Situation

/-- Driving the reader to the last token is taking the tokens before it. -/
theorem result_drive_isFinished (source : Source) {tokens : List Token} {last : Token}
    (htokens : ∀ token ∈ tokens, token.type ≠ .finish) (hlast : last.type = .finish)
    (situation : Situation) {first : Token} {rest : List Token}
    (hstream : first :: rest = tokens ++ [last]) :
    (drive Situation.isFinished source none situation first rest).result.map Situation.trees =
      (situation.takeAll source tokens).bind (Situation.conclude source last) := by
  induction tokens generalizing situation first rest with
  | nil =>
    obtain ⟨rfl, rfl⟩ := List.cons.inj hstream
    cases situation <;>
      simp [drive, Situation.isFinished, Situation.conclude, Situation.refusal?, hlast,
        Situation.trees, Except.bind, Except.map]
  | cons token tokens ih =>
    rw [List.cons_append] at hstream
    obtain ⟨rfl, rfl⟩ := List.cons.inj hstream
    obtain ⟨hfirst, htail⟩ := List.forall_mem_cons.1 htokens
    obtain ⟨next, remaining, hnext⟩ :=
      List.exists_cons_of_ne_nil (List.append_ne_nil_of_right_ne_nil tokens
        (List.cons_ne_nil last []))
    have hgoal : situation.isFinished first = false := by
      cases situation <;> simp [Situation.isFinished, hfirst]
    rw [Situation.takeAll_cons, Situation.step, hnext, drive, hgoal]
    cases hrefusal : situation.refusal? source first with
    | some fault => rfl
    | none =>
      cases htake : situation.take source first with
      | error fault => simp [Except.bind, Except.map]
      | ok following =>
        simp only [Bool.false_eq_true, if_false]
        exact ih htail following hnext.symm

/-- A text whose pieces hold no open string gives the tokens among its pieces, and the
token at the end. -/
theorem tokenize_of_closed (name : Option String) {text : String} {parts : List Piece}
    (hparts : pieces text.toList = parts) (hclosed : parts.any Piece.isUnclosed = false) :
    tokenize name text = ⟨tokensFrom .start parts ++ [endToken text.toList], none⟩ := by
  simp [tokenize, hparts, hclosed]

theorem tokenize_of_unclosed (name : Option String) {text : String}
    (hunclosed : (pieces text.toList).any Piece.isUnclosed = true) :
    tokenize name text = ⟨tokensFrom .start (pieces text.toList),
      some (.malformed .unterminated (Source.locate ⟨name, some text⟩ (endSpan text.toList)))⟩ := by
  simp [tokenize, hunclosed]

/-- The tokens that a text gives are those among its pieces, and possibly the last. -/
theorem mem_tokensFrom_or_eq_endToken {name : Option String} {text : String} {token : Token}
    (hmem : token ∈ (tokenize name text).tokens) :
    token ∈ tokensFrom .start (pieces text.toList) ∨ token = endToken text.toList := by
  cases hunclosed : (pieces text.toList).any Piece.isUnclosed with
  | true =>
    rw [tokenize_of_unclosed name hunclosed] at hmem
    exact .inl hmem
  | false =>
    rw [tokenize_of_closed name rfl hunclosed] at hmem
    simpa using hmem

/-- Reading a text without an open string is taking its tokens one after the other. -/
theorem readTrees_of_closed (name : Option String) {text : String} {parts : List Piece}
    (hparts : pieces text.toList = parts) (hclosed : parts.any Piece.isUnclosed = false) :
    readTrees name text =
      ((Situation.between []).takeAll ⟨name, some text⟩ (tokensFrom .start parts)).bind
        (Situation.conclude ⟨name, some text⟩ (endToken text.toList)) := by
  obtain ⟨first, rest, hstream⟩ :=
    List.exists_cons_of_ne_nil (List.append_ne_nil_of_right_ne_nil (tokensFrom .start parts)
      (List.cons_ne_nil (endToken text.toList) []))
  rw [← result_drive_isFinished ⟨name, some text⟩
    (fun token => type_ne_finish_of_mem_tokensFrom) rfl (.between []) hstream.symm]
  rw [readTrees, tokenize_of_closed name hparts hclosed, hstream]
  rfl

end NescTree.Notation
