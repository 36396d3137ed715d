import NescTree.Proofs.Notation.Grammar
import NescTree.Proofs.Notation.Lexing

/-!
# Texts that are a single token

Before a text is written as it is, it is tested whether it would be read as one word or as one
string.  The tests look at the characters alone, and they agree with the cutting of texts into
tokens: a text is a token on its own exactly if its characters are proper for the type of the
token.  Only a string with a line end in it is a token that the test turns down, unless a
backslash takes the line end into the string.
-/

namespace NescTree.Notation

/-- Whether a text is cut into one token of a type, with nothing left out, and the end. -/
structure IsToken (name : Option String) (type : TokenType) (text : String) : Prop where
  lexemes_eq : (tokenize name text).tokens.map Token.lexeme = [(type, text), (.finish, "EOF")]
  closed : (tokenize name text).fault? = none

section Alone

variable {name : Option String} {type : TokenType} {text : String}

/-- A piece that ends with the text is the only token of the text. -/
theorem isToken_of_endsAt {piece : Piece} (hends : piece.EndsAt [])
    (htype : piece.tokenType? = some type) (htext : text.toList = piece.chars) :
    IsToken name type text := by
  have hpieces : pieces text.toList = [piece] := by
    apply pieces_eq_iff.2
    exact ⟨by simp [htext], hends, trivial⟩
  have hclosed : [piece].any Piece.isUnclosed = false := by
    rw [List.any_cons, List.any_nil, Bool.or_false, isUnclosed_of_tokenType? htype]
  have hlexeme : piece.lexeme? = some (type, text) := by
    rw [Piece.lexeme?, htype, ← htext, String.ofList_toList]
    rfl
  have htokens := tokenize_of_closed name hpieces hclosed
  constructor
  · rw [htokens, List.map_append, map_lexeme_tokensFrom, List.filterMap_cons_some hlexeme]
    rfl
  · rw [htokens]

/-- A text is a token on its own exactly if it is proper as a token of that type. -/
theorem isToken_iff_isProper : IsToken name type text ↔ Lexeme.IsProper (type, text) := by
  constructor
  · rintro ⟨hlexemes, hclosed⟩
    rw [tokenize_of_closed name rfl (any_isUnclosed_of_fault? hclosed), List.map_append] at hlexemes
    have hone : (tokensFrom .start (pieces text.toList)).map Token.lexeme = [(type, text)] :=
      List.append_cancel_right hlexemes
    obtain ⟨token, hmem, hlexeme⟩ : ∃ token ∈ tokensFrom .start (pieces text.toList),
        token.lexeme = (type, text) := by
      apply List.mem_map.1
      rw [hone]
      exact List.mem_singleton_self _
    rw [← hlexeme]
    exact isProper_of_mem_tokensFrom (separated_pieces _) hmem
  · intro hproper
    cases type with
    | opening =>
      have hends : Piece.opening.EndsAt [] := trivial
      exact isToken_of_endsAt hends rfl (congrArg String.toList hproper)
    | closing =>
      have hends : Piece.closing.EndsAt [] := trivial
      exact isToken_of_endsAt hends rfl (congrArg String.toList hproper)
    | word =>
      have hends : (Piece.word text.toList).EndsAt [] := ⟨hproper, by simp⟩
      exact isToken_of_endsAt hends rfl rfl
    | string =>
      obtain ⟨body, htext, hcut⟩ := hproper
      have hends : (Piece.string body).EndsAt [] := by simpa [Piece.EndsAt] using hcut
      exact isToken_of_endsAt hends rfl htext
    | finish => exact hproper.elim

end Alone

section LineEnds

/-- Whether every line end of a text has an unpaired backslash before it. -/
def LineEndsTaken (text : List Char) : Prop :=
  ∀ index char, IsLineEnd char → ¬ BareAt text index char

theorem lineEndsTaken_nil : LineEndsTaken [] :=
  fun index char _ => not_bareAt_nil index char

theorem lineEndsTaken_pair_iff (second : Char) (rest : List Char) :
    LineEndsTaken ('\\' :: second :: rest) ↔ LineEndsTaken rest := by
  constructor
  · intro hpair index char hend
    rw [← bareAt_pair_iff second]
    exact hpair (index + 2) char hend
  · intro hrest index char hend
    apply not_bareAt_pair
    · rintro rfl
      simp [IsLineEnd] at hend
    · intro inner _
      exact hrest inner char hend

theorem lineEndsTaken_cons_iff {first : Char} (hbackslash : first ≠ '\\') (rest : List Char) :
    LineEndsTaken (first :: rest) ↔ ¬ IsLineEnd first ∧ LineEndsTaken rest := by
  constructor
  · intro hall
    constructor
    · intro hend
      exact hall 0 first hend ((bareAt_zero_iff first rest first).2 rfl)
    · intro index char hend
      rw [← bareAt_succ_iff hbackslash]
      exact hall (index + 1) char hend
  · rintro ⟨hfirst, hrest⟩ index char hend
    cases index with
    | zero =>
      rw [bareAt_zero_iff]
      rintro rfl
      exact hfirst hend
    | succ index =>
      rw [bareAt_succ_iff hbackslash]
      exact hrest index char hend

/-- A quote at the end adds no line end. -/
theorem lineEndsTaken_append_quote_iff (inner : List Char) :
    LineEndsTaken (inner ++ ['"']) ↔ LineEndsTaken inner := by
  have hquote : ¬ IsLineEnd '"' := by simp [IsLineEnd]
  have hbare : ∀ index char, IsLineEnd char →
      (BareAt (inner ++ ['"']) index char ↔ BareAt inner index char) := by
    intro index char hend
    rw [BareAt, BareAt]
    by_cases hless : index < inner.length
    · rw [List.getElem?_append_left hless, List.take_append_of_le_length (Nat.le_of_lt hless)]
    · have hlast : ['"'][index - inner.length]? ≠ some char := by
        intro hchar
        obtain rfl : char = '"' := by simpa using List.mem_of_getElem? hchar
        exact hquote hend
      rw [List.getElem?_append_right (Nat.le_of_not_lt hless),
        List.getElem?_eq_none (Nat.le_of_not_lt hless)]
      simp [hlast]
  constructor
  · intro hall index char hend
    rw [← hbare index char hend]
    exact hall index char hend
  · intro hall index char hend
    rw [hbare index char hend]
    exact hall index char hend

/-- What stands between the quotes of a string is plain exactly if every line end in it has a
backslash. -/
theorem isPlainInner_iff {inner : List Char}
    (hcut : cutString (inner ++ ['"']) = some (inner ++ ['"'], [])) :
    isPlainInner inner = true ↔ LineEndsTaken inner := by
  fun_induction isPlainInner inner with
  | case1 => simp [lineEndsTaken_nil]
  | case2 => simp [cutString] at hcut
  | case3 second inner ih =>
    rw [List.cons_append, List.cons_append, cutString_backslash] at hcut
    rw [lineEndsTaken_pair_iff]
    apply ih
    simpa using hcut
  | case4 char inner hlast hmore ih =>
    have hbackslash := ne_backslash hlast hmore
    rw [lineEndsTaken_cons_iff hbackslash]
    by_cases hquote : char = '"'
    · subst hquote
      simp [cutString_quote] at hcut
    · rw [List.cons_append, cutString_plain hbackslash hquote] at hcut
      rw [← ih (by simpa using hcut)]
      simp [IsLineEnd, hquote, and_assoc]

/-- A string can be written as it is exactly if every line end in it has a backslash. -/
theorem isRawString_iff {value : String} :
    isRawString value.toList = true ↔ IsQuoted value ∧ LineEndsTaken value.toList := by
  have hplain : ∀ inner, value.toList = '"' :: (inner ++ ['"']) →
      cutString (inner ++ ['"']) = some (inner ++ ['"'], []) →
      (isPlainInner inner = true ↔ LineEndsTaken value.toList) := by
    intro inner hvalue hcut
    rw [hvalue, lineEndsTaken_cons_iff (by decide), lineEndsTaken_append_quote_iff,
      isPlainInner_iff hcut]
    simp [IsLineEnd]
  constructor
  · intro hraw
    have hquoted := isQuoted_of_isRawString hraw
    obtain ⟨inner, hvalue, hinner⟩ := eq_quoted_of_isRawString hraw
    exact ⟨hquoted, (hplain inner hvalue (cutString_of_isPlainInner hinner [])).1 hinner⟩
  · rintro ⟨⟨body, hvalue, hcut⟩, htaken⟩
    obtain ⟨inner, -, rfl, -⟩ := unescapeInner_of_cutString hcut
    have hinner := (hplain inner hvalue hcut).2 htaken
    simp [isRawString, hvalue, withoutEnds, hinner, List.getLast?_cons]

end LineEnds

/-- The tests of the writer agree with the tokens of the reader.  A text is a bare word exactly
if it is one word.  It can be written as a string exactly if it is one string and every line end
in it has a backslash of its own.  An escaped text is one string with the text as its meaning. -/
theorem writer_tests_agree_with_tokens (name : Option String) (text : String) :
    (isBareWord text.toList = true ↔ IsToken name .word text) ∧
    (isRawString text.toList = true ↔ IsToken name .string text ∧
      ∀ index char, IsLineEnd char → ¬ BareAt text.toList index char) ∧
    IsToken name .string (escape text) ∧ unescape (escape text) = .ok text := by
  refine ⟨?_, ?_, ?_, unescape_escape text⟩
  · rw [isToken_iff_isProper]
    rfl
  · rw [isToken_iff_isProper, isRawString_iff]
    rfl
  · rw [isToken_iff_isProper]
    exact isQuoted_escape text

end NescTree.Notation
