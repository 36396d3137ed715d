import NescTree.Proofs.Notation.Spelling

/-!
# The grammar of tree notation

A text of tree notation is a sequence of lists.  A list holds the name of a kind,
possibly a string for the text, and words, strings and lists for the children, where
a string that directly follows the name of the kind is the text.  The reader accepts
exactly the texts whose tokens are derived in this way.  No two derivations have the
same tokens, and the trees that are read are those that the derivation denotes.
-/

namespace NescTree.Notation

namespace Phrase

/-- Phrases in which a string that directly follows the name of a kind is its text. -/
inductive Grammatical : Phrase → Prop where
  | word (value : String) : Grammatical (.word value)
  | string (value : String) : Grammatical (.string value)
  | list {kind : Kind} {text? : Option String} {items : List Phrase}
      (hfirst : text? = none → ∀ item ∈ items.head?, item.isString = false)
      (hitems : ∀ item ∈ items, Grammatical item) : Grammatical (.list kind text? items)

/-- The lexemes of a list up to the end of its children so far. -/
def openLexemes (kind : Kind) (text? : Option String) (items : List Phrase) : List Lexeme :=
  (.opening, "(") :: (.word, kind.name) ::
    (text?.toList.map (TokenType.string, ·) ++ allLexemes items)

theorem lexemes_list (kind : Kind) (text? : Option String) (items : List Phrase) :
    (list kind text? items).lexemes = openLexemes kind text? items ++ [(.closing, ")")] := by
  simp [lexemes, openLexemes]

theorem allLexemes_append (first second : List Phrase) :
    allLexemes (first ++ second) = allLexemes first ++ allLexemes second := by
  induction first with
  | nil => rfl
  | cons phrase first ih => simp [allLexemes, ih]

theorem openLexemes_append (kind : Kind) (text? : Option String) (items : List Phrase)
    (item : Phrase) :
    openLexemes kind text? (items ++ [item]) =
      openLexemes kind text? items ++ item.lexemes := by
  simp [openLexemes, allLexemes_append, allLexemes]

theorem allLexemes_eq_flatMap (phrases : List Phrase) :
    allLexemes phrases = phrases.flatMap lexemes := by
  induction phrases with
  | nil => rfl
  | cons phrase phrases ih => simp [allLexemes, ih]

/-- A phrase starts with a lexeme that does not close a list. -/
theorem exists_lexemes_eq_cons (phrase : Phrase) :
    ∃ type value rest, phrase.lexemes = (type, value) :: rest ∧ type ≠ .closing ∧
      (type = .string → phrase.isString = true) := by
  cases phrase with
  | word value => exact ⟨.word, value, [], rfl, by simp⟩
  | string value => exact ⟨.string, value, [], rfl, by simp [isString]⟩
  | list kind text? items => exact ⟨.opening, "(", _, rfl, by simp⟩

end Phrase

/-- A sequence of lists that some lexemes spell. -/
structure Derives (phrases : List Phrase) (lexemes : List Lexeme) : Prop where
  lists : ∀ phrase ∈ phrases, phrase.isList = true
  grammatical : ∀ phrase ∈ phrases, phrase.Grammatical
  lexemes_eq : Phrase.allLexemes phrases = lexemes

section Uniqueness

/-- Whether the lexemes of a phrase tell where it ends, and which phrase it is. -/
def Phrase.SelfDelimiting (phrase : Phrase) : Prop :=
  ∀ {other : Phrase} {rest otherRest : List Lexeme}, other.Grammatical →
    phrase.lexemes ++ rest = other.lexemes ++ otherRest → phrase = other ∧ rest = otherRest

/-- Phrases up to the end of a list can be told apart if each of them can. -/
theorem allLexemes_closing_inj {items others : List Phrase} {rest otherRest : List Lexeme}
    (hitems : ∀ item ∈ items, item.SelfDelimiting)
    (hothers : ∀ other ∈ others, other.Grammatical)
    (hlexemes : Phrase.allLexemes items ++ (.closing, ")") :: rest =
      Phrase.allLexemes others ++ (.closing, ")") :: otherRest) :
    items = others ∧ rest = otherRest := by
  induction items generalizing others with
  | nil =>
    cases others with
    | nil => simpa [Phrase.allLexemes] using hlexemes
    | cons other others =>
      obtain ⟨type, value, more, hother, hclosing, -⟩ := other.exists_lexemes_eq_cons
      simp [Phrase.allLexemes, hother, hclosing.symm] at hlexemes
  | cons item items ih =>
    obtain ⟨hitem, htail⟩ := List.forall_mem_cons.1 hitems
    cases others with
    | nil =>
      obtain ⟨type, value, more, heq, hclosing, -⟩ := item.exists_lexemes_eq_cons
      simp [Phrase.allLexemes, heq, hclosing] at hlexemes
    | cons other others =>
      obtain ⟨hother, hrest⟩ := List.forall_mem_cons.1 hothers
      simp only [Phrase.allLexemes, List.append_assoc] at hlexemes
      obtain ⟨rfl, hremaining⟩ := hitem hother hlexemes
      obtain ⟨rfl, rfl⟩ := ih htail hrest hremaining
      exact ⟨rfl, rfl⟩

/-- A string after the name of a kind is not mistaken for a child. -/
theorem text_append_inj {text? otherText? : Option String} {items others : List Phrase}
    {rest otherRest : List Lexeme}
    (hfirst : text? = none → ∀ item ∈ items.head?, item.isString = false)
    (hotherFirst : otherText? = none → ∀ item ∈ others.head?, item.isString = false)
    (hlexemes : text?.toList.map (TokenType.string, ·) ++
        (Phrase.allLexemes items ++ (.closing, ")") :: rest) =
      otherText?.toList.map (TokenType.string, ·) ++
        (Phrase.allLexemes others ++ (.closing, ")") :: otherRest)) :
    text? = otherText? ∧ Phrase.allLexemes items ++ (.closing, ")") :: rest =
      Phrase.allLexemes others ++ (.closing, ")") :: otherRest := by
  have hnone : ∀ {items : List Phrase} {rest more : List Lexeme} {value : String},
      (∀ item ∈ items.head?, item.isString = false) →
      Phrase.allLexemes items ++ (.closing, ")") :: rest ≠ (.string, value) :: more := by
    intro items rest more value hhead
    cases items with
    | nil => simp [Phrase.allLexemes]
    | cons item items =>
      obtain ⟨type, spelled, after, heq, -, hstring⟩ := item.exists_lexemes_eq_cons
      have hplain : type ≠ .string := by
        intro htype
        simp [hstring htype] at hhead
      simp [Phrase.allLexemes, heq, hplain]
  cases text? with
  | none =>
    cases otherText? with
    | none => exact ⟨rfl, by simpa using hlexemes⟩
    | some other => exact absurd hlexemes (hnone (hfirst rfl))
  | some text =>
    cases otherText? with
    | none => exact absurd hlexemes.symm (hnone (hotherFirst rfl))
    | some other => simpa using hlexemes

/-- The lexemes of a phrase tell where it ends, and which phrase it is. -/
theorem Phrase.Grammatical.selfDelimiting {phrase : Phrase} (hphrase : phrase.Grammatical) :
    phrase.SelfDelimiting := by
  induction hphrase with
  | word value =>
    intro other rest otherRest hother hlexemes
    cases hother <;> simp [Phrase.lexemes] at hlexemes ⊢
    exact hlexemes
  | string value =>
    intro other rest otherRest hother hlexemes
    cases hother <;> simp [Phrase.lexemes] at hlexemes ⊢
    exact hlexemes
  | @list kind text? items hfirst _ ih =>
    intro other rest otherRest hother hlexemes
    cases hother with
    | word value => simp [Phrase.lexemes] at hlexemes
    | string value => simp [Phrase.lexemes] at hlexemes
    | @list otherKind otherText? others hotherFirst hothers =>
      simp only [Phrase.lexemes, List.cons_append, List.append_assoc, List.cons.injEq,
        Prod.mk.injEq, true_and, List.nil_append] at hlexemes
      obtain ⟨hname, hinner⟩ := hlexemes
      have hkind : kind = otherKind := by
        have hfound := kind.ofName?_name
        rw [hname, otherKind.ofName?_name] at hfound
        exact (Option.some.inj hfound).symm
      obtain ⟨htext, hitems⟩ := text_append_inj hfirst hotherFirst hinner
      obtain ⟨rfl, rfl⟩ := allLexemes_closing_inj ih hothers hitems
      exact ⟨by rw [hkind, htext], rfl⟩

/-- There is only one way to derive some lexemes. -/
theorem Derives.unique {phrases others : List Phrase} {lexemes : List Lexeme}
    (hphrases : Derives phrases lexemes) (hothers : Derives others lexemes) :
    others = phrases := by
  have hlexemes : Phrase.allLexemes others ++ [(.closing, ")")] =
      Phrase.allLexemes phrases ++ [(.closing, ")")] := by
    rw [hphrases.lexemes_eq, hothers.lexemes_eq]
  exact (allLexemes_closing_inj (fun other hmem => (hothers.grammatical other hmem).selfDelimiting)
    hphrases.grammatical hlexemes).1

end Uniqueness

section Soundness

/-- The lexemes that were taken when some lists are open, innermost first: those of
complete lists, and for every open list those up to the end of its children so far. -/
inductive Unfinished : List Frame → List Lexeme → Prop where
  | top {phrases : List Phrase} {lexemes : List Lexeme} (hderives : Derives phrases lexemes) :
      Unfinished [] lexemes
  | nested {frame : Frame} {outer : List Frame} {before : List Lexeme} {kind : Kind}
      {text? : Option String} {items : List Phrase} (houter : Unfinished outer before)
      (hfresh : frame.fresh = (text?.isNone && items.isEmpty))
      (hfirst : text? = none → ∀ item ∈ items.head?, item.isString = false)
      (hitems : ∀ item ∈ items, item.Grammatical) :
      Unfinished (frame :: outer) (before ++ Phrase.openLexemes kind text? items)

/-- The lexemes that can lead to a situation. -/
def Situation.LeadsTo (lexemes : List Lexeme) : Situation → Prop
  | .between _ => Unfinished [] lexemes
  | .opened outer _ => ∃ before, Unfinished outer before ∧ lexemes = before ++ [(.opening, "(")]
  | .inside frame outer _ => Unfinished (frame :: outer) lexemes

variable {frame : Frame} {outer : List Frame} {lexemes : List Lexeme}

/-- A child joins the innermost open list.  Directly after the kind it is no string. -/
theorem Unfinished.withChild (hopen : Unfinished (frame :: outer) lexemes) {item : Phrase}
    (hitem : item.Grammatical) (hstring : frame.fresh = true → item.isString = false)
    (tree : Tree) :
    Unfinished (frame.withChild tree :: outer) (lexemes ++ item.lexemes) := by
  cases hopen with
  | @nested _ _ before kind text? items houter hfresh hfirst hitems =>
    rw [List.append_assoc, ← Phrase.openLexemes_append]
    refine .nested houter (by simp [Frame.withChild]) ?_ ?_
    · intro hnone
      cases items with
      | nil => simpa [hfresh, hnone] using hstring
      | cons first items => simpa using hfirst hnone
    · simpa [or_imp, forall_and] using ⟨hitems, hitem⟩

theorem Unfinished.withText (hopen : Unfinished (frame :: outer) lexemes)
    (hfresh : frame.fresh = true) (label : Option String) (value : String) :
    Unfinished ({ frame with label, fresh := false } :: outer)
      (lexemes ++ [(.string, value)]) := by
  cases hopen with
  | @nested _ _ before kind text? items houter hflag _ _ =>
    obtain ⟨rfl, rfl⟩ : text? = none ∧ items = [] := by simpa [hflag] using hfresh
    have hlexemes : Phrase.openLexemes kind none [] ++ [(.string, value)] =
        Phrase.openLexemes kind (some value) [] := rfl
    rw [List.append_assoc, hlexemes]
    exact .nested houter rfl (by simp) (by simp)

/-- Closing the innermost open list gives a phrase to the list around it. -/
theorem Unfinished.close (hopen : Unfinished (frame :: outer) lexemes) (reversed : List Tree) :
    (Situation.close frame outer reversed).LeadsTo (lexemes ++ [(.closing, ")")]) := by
  cases hopen with
  | @nested _ _ before kind text? items houter _ hfirst hitems =>
    have hitem : (Phrase.list kind text? items).Grammatical := .list hfirst hitems
    rw [List.append_assoc, ← Phrase.lexemes_list]
    cases outer with
    | nil =>
      cases houter with
      | @top phrases _ hderives =>
        refine @Unfinished.top (phrases ++ [.list kind text? items]) _ ⟨?_, ?_, ?_⟩
        · simpa [or_imp, forall_and, Phrase.isList] using hderives.lists
        · simpa [or_imp, forall_and] using ⟨hderives.grammatical, hitem⟩
        · simp [Phrase.allLexemes_append, hderives.lexemes_eq, Phrase.allLexemes]
    | cons parent rest => exact houter.withChild hitem (fun _ => rfl) frame.closed

/-- What is known of the value of a token from its type, for tokens of a text. -/
def Lexeme.IsProper : Lexeme → Prop
  | (.opening, value) => value = "("
  | (.closing, value) => value = ")"
  | (.word, value) => isBareWord value.toList = true
  | (.string, value) => IsQuoted value
  | (.finish, _) => False

/-- Taking a token adds its lexeme to those that lead to the situation. -/
theorem Situation.LeadsTo.step {situation next : Situation} {source : Source} {token : Token}
    (hleads : situation.LeadsTo lexemes) (hproper : Lexeme.IsProper token.lexeme)
    (hstep : situation.step source token = .ok next) :
    next.LeadsTo (lexemes ++ [token.lexeme]) := by
  obtain ⟨type, value, span⟩ := token
  cases situation with
  | between reversed =>
    cases type <;> simp [Situation.step, refusal?, take] at hstep
    subst hstep
    obtain rfl : value = "(" := hproper
    exact ⟨lexemes, hleads, rfl⟩
  | opened outer reversed =>
    cases type <;> simp [Situation.step, refusal?, take] at hstep
    obtain ⟨before, houter, rfl⟩ := hleads
    cases hname : Kind.ofName? value with
    | none => simp [hname] at hstep
    | some kind =>
      obtain rfl : .inside (.opened kind span) outer reversed = next := by
        simpa [hname] using hstep
      have hlexemes : [(TokenType.opening, "("), (TokenType.word, value)] =
          Phrase.openLexemes kind none [] := by
        rw [← Kind.name_of_ofName? hname]
        rfl
      rw [Token.lexeme, List.append_assoc, List.singleton_append, hlexemes]
      exact .nested houter rfl (by simp) (by simp)
  | inside frame outer reversed =>
    cases type with
    | opening =>
      simp only [Situation.step, refusal?, take, Except.ok.injEq] at hstep
      subst hstep
      obtain rfl : value = "(" := hproper
      exact ⟨lexemes, hleads, rfl⟩
    | closing =>
      simp only [Situation.step, refusal?, take, Except.ok.injEq] at hstep
      subst hstep
      obtain rfl : value = ")" := hproper
      exact Unfinished.close hleads reversed
    | word =>
      simp only [Situation.step, refusal?, take] at hstep
      obtain ⟨tree, -, rfl⟩ := map_eq_ok_iff.1 hstep
      exact Unfinished.withChild hleads (.word value) (fun _ => rfl) tree
    | string =>
      simp only [Situation.step, refusal?, take] at hstep
      by_cases hfresh : frame.fresh = true
      · rw [if_pos hfresh] at hstep
        obtain ⟨text, -, rfl⟩ := map_eq_ok_iff.1 hstep
        exact Unfinished.withText hleads hfresh (some text) value
      · rw [if_neg hfresh, Except.ok.injEq] at hstep
        subst hstep
        exact Unfinished.withChild hleads (.string value) (fun h => absurd h hfresh) _
    | finish => exact hproper.elim

/-- Taking tokens adds their lexemes to those that lead to the situation. -/
theorem Situation.LeadsTo.takeAll {situation last : Situation} {source : Source}
    {tokens : List Token} (hleads : situation.LeadsTo lexemes)
    (hproper : ∀ token ∈ tokens, Lexeme.IsProper token.lexeme)
    (htake : situation.takeAll source tokens = .ok last) :
    last.LeadsTo (lexemes ++ tokens.map Token.lexeme) := by
  induction tokens generalizing situation lexemes with
  | nil =>
    obtain rfl : situation = last := by simpa using htake
    simpa using hleads
  | cons token tokens ih =>
    obtain ⟨htoken, htokens⟩ := List.forall_mem_cons.1 hproper
    rw [takeAll_cons] at htake
    obtain ⟨next, hstep, hrest⟩ := bind_eq_ok_iff.1 htake
    have hlast := ih (hleads.step htoken hstep) htokens hrest
    rwa [List.append_assoc] at hlast

/-- Tokens that are read without a fault are derived by the grammar. -/
theorem exists_derives_of_takeAll {source : Source} {tokens : List Token} {last : Token}
    {trees : List Tree} (hproper : ∀ token ∈ tokens, Lexeme.IsProper token.lexeme)
    (htake : ((Situation.between []).takeAll source tokens).bind
      (Situation.conclude source last) = .ok trees) :
    ∃ phrases, Derives phrases (tokens.map Token.lexeme) := by
  obtain ⟨situation, hsituation, hconclude⟩ := bind_eq_ok_iff.1 htake
  have hstart : (Situation.between []).LeadsTo [] := @Unfinished.top [] [] ⟨by simp, by simp, rfl⟩
  have hleads := hstart.takeAll hproper hsituation
  cases situation with
  | between reversed =>
    cases hleads with
    | @top phrases _ hderives => exact ⟨phrases, hderives⟩
  | opened outer reversed => simp [Situation.conclude] at hconclude
  | inside frame outer reversed => simp [Situation.conclude] at hconclude

end Soundness

section Completeness

/-- Phrases that are spelled by tokens of a text are valid. -/
theorem Phrase.Grammatical.valid {phrase : Phrase} (hphrase : phrase.Grammatical)
    (hproper : ∀ lexeme ∈ phrase.lexemes, Lexeme.IsProper lexeme) : phrase.Valid := by
  induction hphrase with
  | word value => exact .word (hproper _ (List.mem_singleton.2 rfl))
  | string value => exact .string (hproper _ (List.mem_singleton.2 rfl))
  | @list kind text? items hfirst _ ih =>
    refine .list ?_ hfirst ?_
    · intro text htext
      exact hproper (.string, text) (by simp [Phrase.lexemes, Option.mem_def.1 htext])
    · intro item hitem
      refine ih item hitem fun lexeme hlexeme => hproper lexeme ?_
      have hmem : lexeme ∈ Phrase.allLexemes items := by
        rw [Phrase.allLexemes_eq_flatMap]
        exact List.mem_flatMap_of_mem hitem hlexeme
      simp [Phrase.lexemes, hmem]

/-- Tokens that are derived by the grammar are read as the trees that the derivation
denotes. -/
theorem Derives.takeAll {source : Source} {tokens : List Token} {last : Token}
    {phrases : List Phrase} (hderives : Derives phrases (tokens.map Token.lexeme))
    (hproper : ∀ token ∈ tokens, Lexeme.IsProper token.lexeme) :
    ∃ trees, ((Situation.between []).takeAll source tokens).bind
        (Situation.conclude source last) = .ok trees ∧
      trees.map Tree.content = phrases.map Phrase.content := by
  have hreads : Reads source phrases := by
    refine reads_of_forall fun phrase hmem => ?_
    refine ((hderives.grammatical phrase hmem).valid fun lexeme hlexeme => ?_).reads
    have htoken : lexeme ∈ tokens.map Token.lexeme := by
      rw [← hderives.lexemes_eq, Phrase.allLexemes_eq_flatMap]
      exact List.mem_flatMap_of_mem hmem hlexeme
    obtain ⟨token, hmem, rfl⟩ := List.mem_map.1 htoken
    exact hproper token hmem
  obtain ⟨trees, hcontent, htake⟩ :=
    hreads (.between []) tokens hderives.lists hderives.lexemes_eq.symm
  refine ⟨trees, ?_, hcontent⟩
  rw [htake, foldl_withTree_between]
  simp [Situation.conclude, Except.bind]

end Completeness

section Text

/-- The tokens of a text, without the one that marks the end. -/
def properTokens (name : Option String) (text : String) : List Token :=
  (tokenize name text).tokens.filter fun token => token.type ≠ .finish

theorem Piece.EndsAt.isProper {piece : Piece} {rest : List Char} {lexeme : Lexeme}
    (hends : piece.EndsAt rest) (hlexeme : piece.lexeme? = some lexeme) :
    lexeme.IsProper := by
  cases piece with
  | opening =>
    cases hlexeme
    rfl
  | closing =>
    cases hlexeme
    rfl
  | word chars =>
    cases hlexeme
    simpa [Lexeme.IsProper, Piece.chars] using hends.1
  | string body =>
    cases hlexeme
    exact ⟨body, by simp [Piece.chars], cutString_body hends⟩
  | gap char => simp [Piece.lexeme?, Piece.tokenType?] at hlexeme
  | comment body => simp [Piece.lexeme?, Piece.tokenType?] at hlexeme
  | unclosed body => simp [Piece.lexeme?, Piece.tokenType?] at hlexeme

/-- The tokens among separated pieces have values that fit their types. -/
theorem isProper_of_mem_tokensFrom {position : Position} {parts : List Piece} {token : Token}
    (hparts : Separated parts) (hmem : token ∈ tokensFrom position parts) :
    Lexeme.IsProper token.lexeme := by
  have hlexeme : token.lexeme ∈ parts.filterMap Piece.lexeme? := by
    rw [← map_lexeme_tokensFrom position parts]
    exact List.mem_map_of_mem hmem
  clear hmem
  induction parts with
  | nil => simp at hlexeme
  | cons piece parts ih =>
    rcases List.mem_filterMap.1 hlexeme with ⟨source, hsource, heq⟩
    obtain rfl | hrest := List.mem_cons.1 hsource
    · exact hparts.1.isProper heq
    · exact ih hparts.2 (List.mem_filterMap.2 ⟨source, hrest, heq⟩)

theorem any_isUnclosed_of_fault? {name : Option String} {text : String}
    (hfault : (tokenize name text).fault? = none) :
    (pieces text.toList).any Piece.isUnclosed = false := by
  by_contra hunclosed
  rw [Bool.not_eq_false] at hunclosed
  simp [tokenize, hunclosed] at hfault

theorem properTokens_of_fault? {name : Option String} {text : String}
    (hfault : (tokenize name text).fault? = none) :
    properTokens name text = tokensFrom .start (pieces text.toList) := by
  have htokens : ∀ token ∈ tokensFrom .start (pieces text.toList), token.type ≠ .finish :=
    fun _ => type_ne_finish_of_mem_tokensFrom
  rw [properTokens, tokenize_of_closed name rfl (any_isUnclosed_of_fault? hfault)]
  simpa [List.filter_append, endToken, List.filter_eq_self] using htokens

theorem readTree_eq_ok_iff {name : Option String} {text : String} {tree : Tree} :
    readTree name text = .ok tree ↔ readTrees name text = .ok [tree] := by
  have hsingle : ∀ trees, single trees = .ok tree ↔ trees = [tree] := by
    intro trees
    unfold single
    split <;> simp_all
  refine bind_eq_ok_iff.trans ?_
  simp [hsingle]

end Text

/-- On a text that is cut into tokens without a fault, the reader accepts exactly the
sequences of lists that the grammar derives.  There is at most one derivation, every
string in it has a meaning, and the trees are those that the derivation denotes.  A
single tree is read exactly if the derivation is a single list. -/
theorem reader_accepts_grammar (name : Option String) (text : String)
    (hfault : (tokenize name text).fault? = none) :
    ((∃ trees, readTrees name text = .ok trees) ↔
      ∃ phrases, Derives phrases ((properTokens name text).map Token.lexeme)) ∧
    (∀ phrases, Derives phrases ((properTokens name text).map Token.lexeme) →
      (∀ others, Derives others ((properTokens name text).map Token.lexeme) →
        others = phrases) ∧
      ∃ trees, readTrees name text = .ok trees ∧
        trees.map Tree.content = phrases.map Phrase.content) ∧
    (∀ token ∈ properTokens name text, token.type = .string →
      ∃ meaning, unescape token.value = .ok meaning) ∧
    (∀ tree, readTree name text = .ok tree ↔ readTrees name text = .ok [tree]) ∧
    ((∃ tree, readTree name text = .ok tree) ↔
      ∃ phrase, Derives [phrase] ((properTokens name text).map Token.lexeme)) := by
  have hproper : ∀ token ∈ properTokens name text, Lexeme.IsProper token.lexeme := by
    rw [properTokens_of_fault? hfault]
    exact fun _ => isProper_of_mem_tokensFrom (separated_pieces text.toList)
  have hread := readTrees_of_closed name rfl (any_isUnclosed_of_fault? hfault)
  rw [← properTokens_of_fault? hfault] at hread
  have hsound : ∀ trees, readTrees name text = .ok trees →
      ∃ phrases, Derives phrases ((properTokens name text).map Token.lexeme) := by
    intro trees htrees
    exact exists_derives_of_takeAll hproper (hread ▸ htrees)
  have hcomplete : ∀ phrases, Derives phrases ((properTokens name text).map Token.lexeme) →
      ∃ trees, readTrees name text = .ok trees ∧
        trees.map Tree.content = phrases.map Phrase.content := by
    intro phrases hderives
    rw [hread]
    exact hderives.takeAll hproper
  refine ⟨⟨?_, ?_⟩, ?_, ?_, fun _ => readTree_eq_ok_iff, ⟨?_, ?_⟩⟩
  · rintro ⟨trees, htrees⟩
    exact hsound trees htrees
  · rintro ⟨phrases, hderives⟩
    obtain ⟨trees, htrees, -⟩ := hcomplete phrases hderives
    exact ⟨trees, htrees⟩
  · intro phrases hderives
    exact ⟨fun others hothers => hderives.unique hothers, hcomplete phrases hderives⟩
  · rintro ⟨type, value, span⟩ hmem rfl
    exact IsQuoted.exists_unescape (hproper _ hmem)
  · rintro ⟨tree, htree⟩
    rw [readTree_eq_ok_iff] at htree
    obtain ⟨phrases, hderives⟩ := hsound [tree] htree
    obtain ⟨trees, htrees, hcontent⟩ := hcomplete phrases hderives
    obtain rfl : [tree] = trees := by simpa [htree] using htrees
    obtain ⟨phrase, rfl, -⟩ := List.map_eq_singleton_iff.1 hcontent.symm
    exact ⟨phrase, hderives⟩
  · rintro ⟨phrase, hderives⟩
    obtain ⟨trees, htrees, hcontent⟩ := hcomplete [phrase] hderives
    obtain ⟨tree, rfl, -⟩ := List.map_eq_singleton_iff.1 hcontent
    exact ⟨tree, readTree_eq_ok_iff.2 htrees⟩

/-- Of two strings after the name of a kind the first is the text, the second a child. -/
theorem reader_accepts_grammar_second_string :
    (tokenize none "(PLUS \"p\" \"q\" .5 STAR)").fault? = none ∧
    ∃ trees, readTrees none "(PLUS \"p\" \"q\" .5 STAR)" = .ok trees ∧
      trees.map Tree.content =
        [.node (.binary .plus) (some "p") none
          [.node .stringLiteral (some "\"q\"") none [], .node .constant (some ".5") none [],
            .node (.binary .star) (some "*") none []]] := by
  have hfault : (tokenize none "(PLUS \"p\" \"q\" .5 STAR)").fault? = none := by decide +kernel
  have hlexemes : (properTokens none "(PLUS \"p\" \"q\" .5 STAR)").map Token.lexeme =
      Phrase.allLexemes [.list (.binary .plus) (some "\"p\"")
        [.string "\"q\"", .word ".5", .word "STAR"]] := by decide +kernel
  have hitems : ∀ item ∈ [Phrase.string "\"q\"", .word ".5", .word "STAR"],
      item.Grammatical := by
    simp [Phrase.Grammatical.string, Phrase.Grammatical.word]
  have hderives : Derives [.list (.binary .plus) (some "\"p\"")
        [.string "\"q\"", .word ".5", .word "STAR"]]
      ((properTokens none "(PLUS \"p\" \"q\" .5 STAR)").map Token.lexeme) :=
    ⟨by simp [Phrase.isList], by simpa using .list (by simp) hitems, hlexemes.symm⟩
  exact ⟨hfault, ((reader_accepts_grammar none _ hfault).2.1 _ hderives).2⟩

end NescTree.Notation
