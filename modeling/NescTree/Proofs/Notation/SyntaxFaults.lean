import NescTree.Proofs.Notation.Descent
import NescTree.Proofs.Notation.Grammar
import NescTree.Proofs.Notation.Scanning

/-!
# What can go wrong when a text is read

A text is read, or it is found to be malformed at one of its tokens or at its end.  There
is no other way to fail: the tokens of a text can all be made into nodes, and the last of
them stops the reader, unless an open string does.  The same holds when the tokens are
scanned row by row and the trees are read by recursive descent, and both come to an end.
-/

namespace NescTree.Notation

/-- A token that is a string has a text, and a token that is a word has a first character. -/
structure Token.Legible (token : Token) : Prop where
  unescapes : token.type = .string → ∃ text, unescape token.value = .ok text
  classifies : token.type = .word → ∃ constant, looksConstant token.value.toList = .ok constant

/-- The fault of a text that is malformed at one of some places. -/
def IsSyntaxFault (source : Source) (places : List Span) (fault : Fault) : Prop :=
  ∃ cause, ∃ span ∈ places, fault = .malformed cause (some (source.locate span)) ∧
    ∀ value, cause ≠ .unexpected value

/-- The places of the tokens of a text, and the place of its end. -/
def tokenPlaces (text : List Char) : List Span :=
  (tokensFrom .start (pieces text)).map Token.span ++ [endSpan text]

section Tokens

variable {name : Option String} {text : String}

theorem legible_of_isProper {token : Token} (hproper : Lexeme.IsProper token.lexeme) :
    token.Legible where
  unescapes htype := by
    rw [Token.lexeme, htype] at hproper
    exact IsQuoted.exists_unescape hproper
  classifies htype := by
    rw [Token.lexeme, htype] at hproper
    exact ⟨_, looksConstant_eq_ok (bareWord_ne_nil hproper)⟩

theorem legible_endToken (text : List Char) : (endToken text).Legible :=
  ⟨nofun, nofun⟩

theorem legible_of_mem_tokenize {token : Token} (hmem : token ∈ (tokenize name text).tokens) :
    token.Legible := by
  obtain htoken | rfl := mem_tokensFrom_or_eq_endToken hmem
  · exact legible_of_isProper (isProper_of_mem_tokensFrom (separated_pieces _) htoken)
  · exact legible_endToken _

theorem span_mem_tokenPlaces {token : Token} (hmem : token ∈ (tokenize name text).tokens) :
    token.span ∈ tokenPlaces text.toList := by
  obtain htoken | rfl := mem_tokensFrom_or_eq_endToken hmem
  · exact List.mem_append_left _ (List.mem_map_of_mem htoken)
  · exact List.mem_append_right _ (List.mem_singleton_self _)

/-- After its tokens a text gives the fault of an open string, or its last token marks the
end. -/
theorem end_of_tokenize (name : Option String) (text : String) :
    (∃ fault, (tokenize name text).fault? = some fault ∧
      IsSyntaxFault ⟨name, some text⟩ (tokenPlaces text.toList) fault) ∨
    (tokenize name text).fault? = none ∧
      ∃ last ∈ (tokenize name text).tokens.getLast?, last.type = .finish := by
  cases hunclosed : (pieces text.toList).any Piece.isUnclosed with
  | true =>
    rw [tokenize_of_unclosed name hunclosed]
    refine .inl ⟨_, rfl, .unterminated, endSpan text.toList, ?_, rfl, by simp⟩
    exact List.mem_append_right _ (List.mem_singleton_self _)
  | false =>
    rw [tokenize_of_closed name rfl hunclosed]
    exact .inr ⟨rfl, endToken text.toList, by simp, rfl⟩

end Tokens

section Steps

variable {source : Source} {situation : Situation} {token : Token} {places : List Span}
  {fault : Fault}

theorem isSyntaxFault_of_refusal? (hplace : token.span ∈ places)
    (hrefusal : situation.refusal? source token = some fault) :
    IsSyntaxFault source places fault := by
  cases situation <;> cases htype : token.type <;>
    simp only [Situation.refusal?, htype, Option.some.injEq, reduceCtorEq] at hrefusal
  all_goals
    subst hrefusal
    exact ⟨_, token.span, hplace, rfl, by simp⟩

/-- A token that can be made into a node is only refused as an unknown kind. -/
theorem isSyntaxFault_of_take (hplace : token.span ∈ places) (hlegible : token.Legible)
    (htake : situation.take source token = .error fault) : IsSyntaxFault source places fault := by
  cases situation with
  | between reversed => cases htake
  | opened outer reversed =>
    cases hname : Kind.ofName? token.value with
    | some kind => simp [Situation.take, hname] at htake
    | none =>
      simp only [Situation.take, hname, Except.error.injEq] at htake
      exact ⟨_, token.span, hplace, htake.symm, by simp⟩
  | inside frame outer reversed =>
    cases htype : token.type with
    | opening => simp [Situation.take, htype] at htake
    | closing => simp [Situation.take, htype] at htake
    | finish => simp [Situation.take, htype] at htake
    | string =>
      obtain ⟨text, htext⟩ := hlegible.unescapes htype
      cases hfresh : frame.fresh <;>
        simp [Situation.take, htype, hfresh, htext, Except.map] at htake
    | word =>
      obtain ⟨constant, hconstant⟩ := hlegible.classifies htype
      cases hname : Kind.ofName? token.value <;>
        simp [Situation.take, htype, wordTree, hname, hconstant, Except.map] at htake

/-- The token at the end of a text stops the reader. -/
theorem refusal?_of_finish (htype : token.type = .finish)
    (hgoal : situation.isFinished token = false) :
    ∃ fault, situation.refusal? source token = some fault := by
  cases situation <;> simp_all [Situation.isFinished, Situation.refusal?]

/-- Whatever is read, it is only found to be malformed. -/
theorem isSyntaxFault_of_drive {fault? : Option Fault} {upcoming : List Token}
    (hlegible : ∀ other ∈ token :: upcoming, other.Legible)
    (hplaces : ∀ other ∈ token :: upcoming, other.span ∈ places)
    (hend : (∃ last, fault? = some last ∧ IsSyntaxFault source places last) ∨
      fault? = none ∧ ∃ last ∈ (token :: upcoming).getLast?, last.type = .finish)
    (hdrive : (drive Situation.isFinished source fault? situation token upcoming).result =
      .error fault) : IsSyntaxFault source places fault := by
  fun_induction drive Situation.isFinished source fault? situation token upcoming with
  | case1 => cases hdrive
  | case2 upcoming situation token here hgoal refused hrefusal =>
    obtain rfl : refused = fault := by simpa using hdrive
    exact isSyntaxFault_of_refusal? (hplaces token (List.mem_cons_self ..)) hrefusal
  | case3 situation token hgoal hrefusal =>
    obtain ⟨last, rfl, hlast⟩ | ⟨rfl, last, hlast, htype⟩ := hend
    · obtain rfl : last = fault := by simpa using hdrive
      exact hlast
    · obtain rfl : token = last := by simpa using hlast
      obtain ⟨refused, hother⟩ :=
        @refusal?_of_finish source situation token htype (Bool.eq_false_iff.2 hgoal)
      simp [hrefusal] at hother
  | case4 situation token hgoal hrefusal next rest refused htake =>
    obtain rfl : refused = fault := by simpa using hdrive
    exact isSyntaxFault_of_take (hplaces token (List.mem_cons_self ..))
      (hlegible token (List.mem_cons_self ..)) htake
  | case5 situation token hgoal hrefusal next rest following htake ih =>
    rw [List.getLast?_cons_cons] at hend
    exact ih (List.forall_mem_cons.1 hlegible).2 (List.forall_mem_cons.1 hplaces).2 hend hdrive

end Steps

/-- A text that is not read is malformed at one of its tokens or at its end. -/
theorem isSyntaxFault_of_readTrees {name : Option String} {text : String} {fault : Fault}
    (hread : readTrees name text = .error fault) :
    IsSyntaxFault ⟨name, some text⟩ (tokenPlaces text.toList) fault := by
  have hend := end_of_tokenize name text
  have hlegible : ∀ token ∈ (tokenize name text).tokens, token.Legible :=
    fun _ => legible_of_mem_tokenize
  have hplaces : ∀ token ∈ (tokenize name text).tokens, token.span ∈ tokenPlaces text.toList :=
    fun _ => span_mem_tokenPlaces
  cases htokens : (tokenize name text).tokens with
  | nil =>
    obtain ⟨last, hfault, hlast⟩ | ⟨-, last, hlast, -⟩ := hend
    · have hstopped : last = fault := by
        simpa [readTrees, Cursor.start, Cursor.advance, htokens, hfault] using hread
      exact hstopped ▸ hlast
    · simp [htokens] at hlast
  | cons first rest =>
    rw [htokens] at hend hlegible hplaces
    simp only [readTrees, Cursor.start, Cursor.advance, htokens, Cursor.readUntil] at hread
    cases hdrive : (drive Situation.isFinished ⟨name, some text⟩ (tokenize name text).fault?
        (.between []) first rest).result with
    | ok last => simp [hdrive, Except.map] at hread
    | error stopped =>
      obtain rfl : stopped = fault := by simpa [hdrive, Except.map] using hread
      exact isSyntaxFault_of_drive hlegible hplaces hend hdrive

/-- Any other number of trees than one is a fault of the text as a whole. -/
theorem single_eq_ok_or_error (trees : List Tree) :
    (∃ tree, single trees = .ok tree) ∨
      ∃ cause location?, single trees = .error (.malformed cause location?) ∧
        ∀ value, cause ≠ .unexpected value := by
  match trees with
  | [tree] => exact .inl ⟨tree, rfl⟩
  | [] => exact .inr ⟨_, _, rfl, by simp⟩
  | _ :: _ :: _ => exact .inr ⟨_, _, rfl, by simp⟩

/-- Every text is read, or is found to be malformed.  The scanner never has to go back
further than it can; strings have a text and words a first character; recursive descent never
runs out of tokens and never meets one that no child starts with; and a number of rounds that
the length of the text gives is enough for all loops and calls. -/
theorem reading_fails_only_on_malformed (name : Option String) (text : String) :
    (∀ rounds, text.length < rounds →
      Scanner.scan rounds name text = .ok (tokenize name text)) ∧
    (∀ token ∈ (tokenize name text).tokens, token.Legible) ∧
    (∀ rounds, (tokenize name text).tokens.length < rounds →
      Descent.readTrees rounds name text = some (readTrees name text)) ∧
    ((∃ trees, readTrees name text = .ok trees) ∨
      ∃ cause location, readTrees name text = .error (.malformed cause (some location)) ∧
        ∀ value, cause ≠ .unexpected value) ∧
    ((∃ tree, readTree name text = .ok tree) ∨
      ∃ cause location?, readTree name text = .error (.malformed cause location?) ∧
        ∀ value, cause ≠ .unexpected value) := by
  have hread : (∃ trees, readTrees name text = .ok trees) ∨
      ∃ cause location, readTrees name text = .error (.malformed cause (some location)) ∧
        ∀ value, cause ≠ .unexpected value := by
    cases htrees : readTrees name text with
    | ok trees => exact .inl ⟨trees, rfl⟩
    | error fault =>
      obtain ⟨cause, span, -, rfl, hcause⟩ := isSyntaxFault_of_readTrees htrees
      exact .inr ⟨cause, _, rfl, hcause⟩
  refine ⟨fun rounds => Scanner.scan_eq name text, fun _ => legible_of_mem_tokenize,
    fun rounds => Descent.readTrees_eq name text, hread, ?_⟩
  rw [readTree]
  obtain ⟨trees, htrees⟩ | ⟨cause, location, htrees, hcause⟩ := hread
  · rw [htrees]
    exact single_eq_ok_or_error trees
  · rw [htrees]
    exact .inr ⟨cause, some location, rfl, hcause⟩

end NescTree.Notation
