import NescTree.Proofs.Notation.FullForm

/-!
# Reading the compact form back

The compact form spells a phrase too, in which leaves may be shortened to words and
strings.  It exists unless some literal without text had to be measured, and it reads
back as the tree wherever a list or a child is read.  A shortened root is the one
case that is neither: it stands for its tree only inside a list.
-/

namespace NescTree.Notation

/-- A leaf shortened to a word, or to a string that is written as it is. -/
def Phrase.IsShort : Phrase → Prop
  | .word value => isBareWord value.toList = true
  | .string value => isRawString value.toList = true
  | .list _ _ _ => False

theorem Phrase.IsShort.valid {phrase : Phrase} (hshort : phrase.IsShort) : phrase.Valid := by
  cases phrase with
  | word value => exact .word hshort
  | string value => exact .string (isQuoted_of_isRawString hshort)
  | list kind text? items => exact hshort.elim

def Phrase.value : Phrase → String
  | .word value | .string value => value
  | .list kind _ _ => kind.name

theorem Phrase.IsShort.toList_value {phrase : Phrase} (hshort : phrase.IsShort) :
    phrase.value.toList = phrase.pieces.flatMap Piece.chars := by
  cases phrase with
  | word value => simp [Phrase.value, Phrase.pieces, Piece.chars]
  | string value =>
    obtain ⟨inner, hvalue, -⟩ := eq_quoted_of_isRawString hshort
    simp [Phrase.value, Phrase.pieces, Piece.chars, hvalue]
  | list kind text? items => exact hshort.elim

theorem isIdentifierWord_eq_ok (word : String) :
    isIdentifierWord word = .ok (isBareWord word.toList && (Kind.ofName? word).isNone &&
      !startsConstant word.toList) := by
  rw [isIdentifierWord]
  cases hword : isBareWord word.toList with
  | false => simp
  | true =>
    have hne : word.toList ≠ [] := bareWord_ne_nil hword
    cases hname : Kind.ofName? word <;> simp [looksConstant_eq_ok hne, Except.map]

theorem isConstantWord_eq_ok (word : String) :
    isConstantWord word = .ok (isBareWord word.toList && startsConstant word.toList) := by
  rw [isConstantWord]
  cases hword : isBareWord word.toList with
  | false => simp
  | true => simp [looksConstant_eq_ok (bareWord_ne_nil hword)]

theorem ofName?_eq_none_of_startsConstant {word : String}
    (hconstant : startsConstant word.toList = true) : Kind.ofName? word = none := by
  have hne : word.toList ≠ [] := by
    intro hnil
    simp [hnil, startsConstant] at hconstant
  apply Kind.ofName?_eq_none_of_looksConstant
  rw [looksConstant_eq_ok hne, hconstant]

/-- A short form stands for a leaf with the kind and text it was made from. -/
theorem exists_phrase_of_shortForm? {afterKind : Bool} {kind : Kind} {text : Option String}
    {short : String} (hshort : shortForm? afterKind kind text = .ok (some short)) :
    ∃ phrase : Phrase, phrase.IsShort ∧ phrase.value = short ∧
      phrase.content = .node kind text none [] ∧
      (afterKind = true → phrase.isString = false) ∧
      (short = kind.name ∨ text = some short) := by
  unfold shortForm? at hshort
  split at hshort
  · rename_i word
    rw [isIdentifierWord_eq_ok] at hshort
    obtain ⟨⟨⟨hword, hname⟩, hconstant⟩, rfl⟩ : ((isBareWord word.toList = true ∧
        Kind.ofName? word = none) ∧ startsConstant word.toList = false) ∧ word = short := by
      simpa [Except.map] using hshort
    exact ⟨.word word, hword, rfl, by simp [Phrase.content, wordContent, hname, hconstant],
      fun _ => rfl, .inr rfl⟩
  · simp at hshort
  · rename_i word
    rw [isConstantWord_eq_ok] at hshort
    obtain ⟨⟨hword, hconstant⟩, rfl⟩ : (isBareWord word.toList = true ∧
        startsConstant word.toList = true) ∧ word = short := by
      simpa [Except.map] using hshort
    have hname := ofName?_eq_none_of_startsConstant hconstant
    exact ⟨.word word, hword, rfl, by simp [Phrase.content, wordContent, hname, hconstant],
      fun _ => rfl, .inr rfl⟩
  · simp at hshort
  · rename_i string
    obtain ⟨⟨hafter, hraw⟩, rfl⟩ : (afterKind = false ∧ isRawString string.toList = true) ∧
        string = short := by
      simpa using hshort
    exact ⟨.string string, hraw, rfl, rfl, by simp [hafter], .inr rfl⟩
  · split at hshort <;> simp at hshort
  · obtain ⟨rfl, rfl⟩ : text = kind.spelling? ∧ kind.name = short := by
      simpa using hshort
    exact ⟨.word kind.name, kind.isBareWord_name, rfl, by simp [Phrase.content, wordContent],
      fun _ => rfl, .inl rfl⟩

/-- Only a literal without text that does not follow the kind of its parent has no short
form to be tried. -/
theorem shortForm?_eq_error_iff (afterKind : Bool) (kind : Kind) (text : Option String)
    (fault : Fault) :
    shortForm? afterKind kind text = .error fault ↔
      fault = .unmeasuredLiteral ∧ afterKind = false ∧ kind = .stringLiteral ∧ text = none := by
  unfold shortForm?
  split
  · simp [isIdentifierWord_eq_ok, Except.map]
  · simp
  · simp [isConstantWord_eq_ok, Except.map]
  · simp
  · simp
  · cases afterKind <;> simp [eq_comm]
  · rename_i hnone
    simp only [reduceCtorEq, false_iff]
    rintro ⟨-, -, rfl, rfl⟩
    exact hnone rfl rfl

/-- What the compact form of a tree spells, where the tree may directly follow the kind
of its parent. -/
structure CompactPhrase (afterKind : Bool) (tree : Tree) (written : String)
    (phrase : Phrase) : Prop where
  valid : phrase.Valid
  content_eq : phrase.content = tree.content
  toList_eq : written.toList = phrase.pieces.flatMap Piece.chars
  isString_eq : afterKind = true → phrase.isString = false
  short : phrase.isList = false → phrase.IsShort ∧ tree.children = [] ∧
    (written = tree.kind.name ∨ tree.text = some written)

theorem toList_list_pieces (kind : Kind) (label : Option String) (items : List Phrase) :
    (Phrase.list kind (quotedText? kind label) items).pieces.flatMap Piece.chars =
      '(' :: ((heading kind label).toList ++
        ((Phrase.itemPieces items).flatMap Piece.chars ++ [')'])) := by
  simp [Phrase.pieces, toList_heading, Piece.chars]

/-- A list with the kind and text of a node stands for the node if its items stand for
the children. -/
theorem compactPhrase_list {afterKind : Bool} {kind : Kind} {label : Option String}
    {span : Option Span} {children : List Tree} {items : List Phrase} {written : String}
    (hitems : ∀ item ∈ items, item.Valid)
    (hfirst : (writtenText? kind label).isNone = true →
      ∀ item ∈ items.head?, item.isString = false)
    (hcontent : items.map Phrase.content = children.map Tree.content)
    (hwritten : written.toList = '(' :: ((heading kind label).toList ++
      ((Phrase.itemPieces items).flatMap Piece.chars ++ [')']))) :
    CompactPhrase afterKind (.node kind label span children) written
      (.list kind (quotedText? kind label) items) := by
  refine ⟨.list isQuoted_of_mem_map_escape ?_ hitems, ?_, ?_, fun _ => rfl, ?_⟩
  · intro hnone
    apply hfirst
    rwa [quotedText?, Option.map_eq_none_iff, ← Option.isNone_iff_eq_none] at hnone
  · rw [content_list_quotedText?, Tree.content_node, hcontent]
  · rw [hwritten, toList_list_pieces]
  · simp [Phrase.isList]

theorem exists_phrase_of_compactAt_leaf {afterKind : Bool} {kind : Kind}
    {label : Option String} {span : Option Span} {written : String}
    (hok : compactAt afterKind (.node kind label span []) = .ok written) :
    ∃ phrase, CompactPhrase afterKind (.node kind label span []) written phrase := by
  rw [compactAt] at hok
  obtain ⟨short?, hshort, hok⟩ := bind_eq_ok_iff.1 hok
  cases short? with
  | some short =>
    obtain rfl : short = written := Except.ok.inj hok
    obtain ⟨phrase, hphrase, rfl, hcontent, hstring, hvalue⟩ :=
      exists_phrase_of_shortForm? hshort
    exact ⟨phrase, hphrase.valid, hcontent, hphrase.toList_value, hstring,
      fun _ => ⟨hphrase, rfl, hvalue⟩⟩
  | none =>
    have hwritten : "(" ++ heading kind label ++ ")" = written := Except.ok.inj hok
    refine ⟨.list kind (quotedText? kind label) [], compactPhrase_list ?_ ?_ rfl ?_⟩
    · simp
    · simp
    · simp [← hwritten, Phrase.itemPieces]

theorem exists_phrases_of_compactChildren {children : List Tree} {written : String}
    (hchildren : ∀ child ∈ children, ∀ written, compactAt false child = .ok written →
      ∃ phrase, CompactPhrase false child written phrase)
    (hok : compactChildren children = .ok written) :
    ∃ items : List Phrase, (∀ item ∈ items, item.Valid) ∧
      items.map Phrase.content = children.map Tree.content ∧
      written.toList = (Phrase.itemPieces items).flatMap Piece.chars := by
  induction children generalizing written with
  | nil =>
    obtain rfl : "" = written := by simpa [compactChildren] using hok
    exact ⟨[], by simp, rfl, rfl⟩
  | cons child children ih =>
    obtain ⟨hhead, htail⟩ := List.forall_mem_cons.1 hchildren
    rw [compactChildren] at hok
    obtain ⟨first, hfirst, hok⟩ := bind_eq_ok_iff.1 hok
    obtain ⟨others, hothers, hok⟩ := bind_eq_ok_iff.1 hok
    have hwritten : " " ++ first ++ others = written := Except.ok.inj hok
    obtain ⟨phrase, hvalid, hcontent, hphrase, -, -⟩ := hhead first hfirst
    obtain ⟨items, hitems, hcontents, hspelled⟩ := ih htail hothers
    refine ⟨phrase :: items, List.forall_mem_cons.2 ⟨hvalid, hitems⟩, ?_, ?_⟩
    · rw [List.map_cons, List.map_cons, hcontent, hcontents]
    · simp [← hwritten, Phrase.itemPieces, hphrase, hspelled, Piece.chars]

/-- The compact form of a tree spells a phrase that stands for the tree. -/
theorem exists_phrase_of_compactAt {afterKind : Bool} {tree : Tree} {written : String}
    (hok : compactAt afterKind tree = .ok written) :
    ∃ phrase, CompactPhrase afterKind tree written phrase := by
  induction tree using Tree.inductionOn generalizing afterKind written with
  | node kind label span children ih =>
    cases children with
    | nil => exact exists_phrase_of_compactAt_leaf hok
    | cons child children =>
      rw [compactAt] at hok
      obtain ⟨first, hfirst, hok⟩ := bind_eq_ok_iff.1 hok
      obtain ⟨others, hothers, hok⟩ := bind_eq_ok_iff.1 hok
      have hwritten : "(" ++ heading kind label ++ " " ++ first ++ others ++ ")" = written :=
        Except.ok.inj hok
      obtain ⟨phrase, hvalid, hcontent, hphrase, hstring, -⟩ :=
        ih child List.mem_cons_self hfirst
      obtain ⟨items, hitems, hcontents, hspelled⟩ := exists_phrases_of_compactChildren
        (fun next hnext _ => ih next (List.mem_cons_of_mem child hnext)) hothers
      refine ⟨.list kind (quotedText? kind label) (phrase :: items),
        compactPhrase_list (List.forall_mem_cons.2 ⟨hvalid, hitems⟩) ?_ ?_ ?_⟩
      · intro hnone item hitem
        obtain rfl : phrase = item := by simpa using hitem
        exact hstring hnone
      · rw [List.map_cons, List.map_cons, hcontent, hcontents]
      · simp [← hwritten, Phrase.itemPieces, hphrase, hspelled, Piece.chars]

/-- Whether the text of a node is absent or the spelling of its kind, so that it is not
written. -/
def omitsText (tree : Tree) : Bool :=
  tree.text == none || tree.text == tree.kind.spelling?

/-- The nodes of a tree, each with whether it directly follows the kind of its parent:
then it is the first child of a parent whose text is not written. -/
inductive Occurs (afterKind : Bool) (root : Tree) : Bool → Tree → Prop where
  | root : Occurs afterKind root afterKind root
  | child {follows : Bool} {parent child : Tree} {index : Nat}
      (hparent : Occurs afterKind root follows parent)
      (hchild : parent.children[index]? = some child) :
      Occurs afterKind root (index == 0 && omitsText parent) child

def IsTextlessLiteral (tree : Tree) : Prop :=
  tree.kind = .stringLiteral ∧ tree.text = none ∧ tree.children = []

/-- Whether the compact form of a tree would have to measure a text that is absent. -/
def HasUnmeasured (afterKind : Bool) (tree : Tree) : Prop :=
  ∃ node, Occurs afterKind tree false node ∧ IsTextlessLiteral node

theorem isNone_writtenText? (kind : Kind) (label : Option String) (span : Option Span)
    (children : List Tree) :
    (writtenText? kind label).isNone = omitsText (.node kind label span children) := by
  rw [writtenText?, omitsText, Tree.text, Tree.kind]
  cases kind.textOr label with
  | none => rfl
  | some text =>
    by_cases hspelling : kind.spelling? = some text
    · simp [Option.filter, hspelling]
    · have htext : (some text == kind.spelling?) = false := by
        simpa using fun heq => hspelling heq.symm
      simp [Option.filter, hspelling, htext]

theorem Occurs.inChild {afterKind follows : Bool} {root child node : Tree} {index : Nat}
    (hchild : root.children[index]? = some child)
    (hoccurs : Occurs (index == 0 && omitsText root) child follows node) :
    Occurs afterKind root follows node := by
  induction hoccurs with
  | root => exact .child .root hchild
  | child _ hnext ih => exact .child ih hnext

/-- A node of a tree is the root or a node of a child. -/
theorem occurs_iff {afterKind follows : Bool} {root node : Tree} :
    Occurs afterKind root follows node ↔ (follows = afterKind ∧ node = root) ∨
      ∃ (index : Nat) (child : Tree), root.children[index]? = some child ∧
        Occurs (index == 0 && omitsText root) child follows node := by
  constructor
  · intro hoccurs
    induction hoccurs with
    | root => exact .inl ⟨rfl, rfl⟩
    | @child follows parent next index hparent hnext ih =>
      right
      rcases ih with ⟨rfl, rfl⟩ | ⟨first, child, hchild, hbelow⟩
      · exact ⟨index, next, hnext, .root⟩
      · exact ⟨first, child, hchild, .child hbelow hnext⟩
  · rintro (⟨rfl, rfl⟩ | ⟨index, child, hchild, hbelow⟩)
    · exact .root
    · exact hbelow.inChild hchild

theorem hasUnmeasured_leaf_iff (afterKind : Bool) (kind : Kind) (label : Option String)
    (span : Option Span) :
    HasUnmeasured afterKind (.node kind label span []) ↔
      afterKind = false ∧ kind = .stringLiteral ∧ kind.textOr label = none := by
  constructor
  · rintro ⟨node, hoccurs, hkind, htext, -⟩
    rcases occurs_iff.1 hoccurs with ⟨hafter, rfl⟩ | ⟨index, child, hchild, -⟩
    · exact ⟨hafter.symm, hkind, htext⟩
    · simp [Tree.children] at hchild
  · rintro ⟨rfl, hkind, htext⟩
    exact ⟨_, .root, hkind, htext, rfl⟩

theorem hasUnmeasured_cons_iff (afterKind : Bool) (kind : Kind) (label : Option String)
    (span : Option Span) (child : Tree) (children : List Tree) :
    HasUnmeasured afterKind (.node kind label span (child :: children)) ↔
      HasUnmeasured (writtenText? kind label).isNone child ∨
        ∃ other ∈ children, HasUnmeasured false other := by
  rw [isNone_writtenText? kind label span (child :: children)]
  constructor
  · rintro ⟨node, hoccurs, hliteral⟩
    rcases occurs_iff.1 hoccurs with ⟨-, rfl⟩ | ⟨index, next, hnext, hbelow⟩
    · exact absurd hliteral.2.2 (List.cons_ne_nil child children)
    · cases index with
      | zero =>
        obtain rfl : child = next := by simpa [Tree.children] using hnext
        exact .inl ⟨node, by simpa using hbelow, hliteral⟩
      | succ index =>
        have hmem : next ∈ children :=
          List.mem_of_getElem? (by simpa [Tree.children] using hnext)
        exact .inr ⟨next, hmem, node, by simpa using hbelow, hliteral⟩
  · rintro (⟨node, hbelow, hliteral⟩ | ⟨other, hother, node, hbelow, hliteral⟩)
    · have hchild : (Tree.node kind label span (child :: children)).children[0]? =
          some child := rfl
      exact ⟨node, Occurs.inChild hchild (by simpa using hbelow), hliteral⟩
    · obtain ⟨index, hindex⟩ := List.mem_iff_getElem?.1 hother
      have hchild : (Tree.node kind label span (child :: children)).children[index + 1]? =
          some other := hindex
      exact ⟨node, Occurs.inChild hchild (by simpa using hbelow), hliteral⟩

theorem compactChildren_eq_error_iff {children : List Tree} {fault : Fault}
    (hchildren : ∀ child ∈ children, ∀ fault, compactAt false child = .error fault ↔
      fault = .unmeasuredLiteral ∧ HasUnmeasured false child) :
    compactChildren children = .error fault ↔
      fault = .unmeasuredLiteral ∧ ∃ child ∈ children, HasUnmeasured false child := by
  induction children with
  | nil => simp [compactChildren]
  | cons child children ih =>
    obtain ⟨hhead, htail⟩ := List.forall_mem_cons.1 hchildren
    rw [compactChildren, bind_eq_error_iff, hhead fault]
    cases hfirst : compactAt false child with
    | error other =>
      have hother := (hhead other).1 hfirst
      simp [hother.2]
    | ok first =>
      have hmeasured : ¬HasUnmeasured false child := by
        intro hchild
        have herror := (hhead .unmeasuredLiteral).2 ⟨rfl, hchild⟩
        simp [hfirst] at herror
      simp [bind_eq_error_iff, ih htail, hmeasured, pure, Except.pure]

/-- The compact form is missing exactly where a text that is absent would be measured. -/
theorem compactAt_eq_error_iff (afterKind : Bool) (tree : Tree) (fault : Fault) :
    compactAt afterKind tree = .error fault ↔
      fault = .unmeasuredLiteral ∧ HasUnmeasured afterKind tree := by
  induction tree using Tree.inductionOn generalizing afterKind fault with
  | node kind label span children ih =>
    cases children with
    | nil =>
      rw [compactAt, bind_eq_error_iff, shortForm?_eq_error_iff, hasUnmeasured_leaf_iff]
      apply or_iff_left
      rintro ⟨short?, -, herror⟩
      cases short? <;> simp [pure, Except.pure] at herror
    | cons child children =>
      obtain ⟨hhead, htail⟩ := List.forall_mem_cons.1 ih
      have hothers := @compactChildren_eq_error_iff children fault fun next hnext =>
        htail next hnext false
      rw [compactAt, bind_eq_error_iff, hhead, hasUnmeasured_cons_iff]
      cases hfirst : compactAt (writtenText? kind label).isNone child with
      | error other =>
        have hother := (hhead _ other).1 hfirst
        simp [hother.2]
      | ok first =>
        have hmeasured : ¬HasUnmeasured (writtenText? kind label).isNone child := by
          intro hchild
          have herror := (hhead _ .unmeasuredLiteral).2 ⟨rfl, hchild⟩
          simp [hfirst] at herror
        simp [bind_eq_error_iff, hothers, hmeasured, pure, Except.pure]

theorem Phrase.IsShort.head?_value {phrase : Phrase} (hshort : phrase.IsShort) :
    phrase.value.toList.head? ≠ some '(' := by
  cases phrase with
  | word value =>
    intro hhead
    obtain ⟨rest, hvalue⟩ := List.head?_eq_some_iff.1 hhead
    have hstop := not_isStop_of_mem_bareWord hshort (hvalue ▸ List.mem_cons_self)
    simp [isStop] at hstop
  | string value =>
    obtain ⟨inner, hvalue, -⟩ := eq_quoted_of_isRawString hshort
    simp [Phrase.value, hvalue]
  | list kind text? items => exact hshort.elim

theorem Phrase.IsShort.bare_or_raw {phrase : Phrase} (hshort : phrase.IsShort) :
    isBareWord phrase.value.toList = true ∨ isRawString phrase.value.toList = true := by
  cases phrase with
  | word value => exact .inl hshort
  | string value => exact .inr hshort
  | list kind text? items => exact hshort.elim

/-- A leaf that stands alone is refused. -/
theorem readTree_value (name : Option String) {phrase : Phrase} (hshort : phrase.IsShort) :
    ∃ cause location, readTree name phrase.value = .error (.malformed cause location) := by
  have hspells := hshort.valid.spells
  have hpieces : pieces phrase.value.toList = phrase.pieces := by
    rw [hshort.toList_value]
    apply pieces_flatMap_chars
    simpa using hspells.separated [] separated_nil startsWithStop_nil
  have hlexemes : (tokensFrom .start phrase.pieces).map Token.lexeme = phrase.lexemes := by
    rw [map_lexeme_tokensFrom, hspells.lexemes_eq]
  obtain ⟨token, htokens, htype⟩ : ∃ token, tokensFrom .start phrase.pieces = [token] ∧
      token.type ≠ .opening := by
    cases phrase with
    | list kind text? items => exact hshort.elim
    | word value | string value =>
      obtain ⟨token, htokens, htoken⟩ := List.map_eq_singleton_iff.1 hlexemes
      exact ⟨token, htokens, by simp [(lexeme_eq_iff.1 htoken).1]⟩
  rw [readTree, readTrees_of_closed name hpieces hspells.closed, htokens,
    Situation.takeAll_cons]
  cases hkind : token.type <;>
    simp_all [Situation.step, Situation.refusal?, Except.bind]

section CompactPhrase

variable {afterKind : Bool} {tree : Tree} {written : String} {phrase : Phrase}

theorem CompactPhrase.value_eq (hphrase : CompactPhrase afterKind tree written phrase)
    (hlist : phrase.isList = false) : phrase.value = written := by
  obtain ⟨-, -, hwritten, -, hshort⟩ := hphrase
  apply String.toList_inj.1
  rw [hwritten]
  exact (hshort hlist).1.toList_value

/-- A compact form starts with a parenthesis exactly when it spells a list. -/
theorem CompactPhrase.head?_eq_iff (hphrase : CompactPhrase afterKind tree written phrase) :
    written.toList.head? = some '(' ↔ phrase.isList = true := by
  constructor
  · intro hhead
    by_contra hlist
    rw [Bool.not_eq_true] at hlist
    have hshort := (hphrase.short hlist).1
    rw [← hphrase.value_eq hlist] at hhead
    exact hshort.head?_value hhead
  · intro hlist
    rw [hphrase.toList_eq]
    cases phrase with
    | list kind text? items => rfl
    | word value => simp [Phrase.isList] at hlist
    | string value => simp [Phrase.isList] at hlist

/-- Inside a list, after another child, a compact form reads back as its tree. -/
theorem CompactPhrase.readTree_second (hphrase : CompactPhrase afterKind tree written phrase)
    (name : Option String) (kind : Kind) :
    ∃ parent copy, readTree name ("(" ++ kind.name ++ " x " ++ written ++ ")") = .ok parent ∧
      parent.children[1]? = some copy ∧ copy.content = tree.content := by
  obtain ⟨hvalid, hcontent, hwritten, -, -⟩ := hphrase
  have hword : (Phrase.word "x").Valid := .word (by rfl)
  have hlist : (Phrase.list kind none [.word "x", phrase]).Valid := by
    refine .list (by simp) (by simp [Phrase.isString]) ?_
    simp [hword, hvalid]
  have htext : ("(" ++ kind.name ++ " x " ++ written ++ ")").toList =
      (Phrase.list kind none [.word "x", phrase]).pieces.flatMap Piece.chars := by
    simp [Phrase.pieces, Phrase.itemPieces, Phrase.textPieces, Piece.chars, hwritten]
  obtain ⟨⟨parentKind, label, span, children⟩, hread, hparent⟩ :=
    readTree_pieces name hlist rfl htext
  have hchildren : children.map Tree.content = [wordContent "x", tree.content] := by
    rw [Tree.content_node, Phrase.content, Phrase.allContent_eq_map] at hparent
    simpa [hcontent, Phrase.content, Tree.children] using congrArg Tree.children hparent
  obtain ⟨first, rest, rfl, -, hrest⟩ := List.map_eq_cons_iff.1 hchildren
  obtain ⟨copy, rfl, hcopy⟩ := List.map_eq_singleton_iff.1 hrest
  exact ⟨_, copy, hread, rfl, hcopy⟩

end CompactPhrase

/-- A tree has a compact form unless it holds a string literal without text or children
that does not directly follow the kind of its parent.  A form in parentheses reads back
as the tree.  The only other forms are those of leaves shortened to a word or a string:
alone they are refused, but as a child every form reads back as the tree. -/
theorem compact_roundtrip (name : Option String) (tree : Tree) :
    (compact tree = .error .unmeasuredLiteral ↔ HasUnmeasured false tree) ∧
    ((∃ written, compact tree = .ok written) ↔ ¬HasUnmeasured false tree) ∧
    ∀ written, compact tree = .ok written →
      (written.toList.head? = some '(' →
        ∃ copy, readTree name written = .ok copy ∧ Tree.same copy tree = true) ∧
      (written.toList.head? ≠ some '(' ↔ tree.children = [] ∧
        (isBareWord written.toList = true ∨ isRawString written.toList = true) ∧
        (written = tree.kind.name ∨ tree.text = some written)) ∧
      (written.toList.head? ≠ some '(' →
        ∃ cause location, readTree name written = .error (.malformed cause location)) ∧
      (∀ kind : Kind, ∃ parent copy,
        readTree name ("(" ++ kind.name ++ " x " ++ written ++ ")") = .ok parent ∧
          parent.children[1]? = some copy ∧ Tree.same copy tree = true) := by
  refine ⟨?_, ?_, ?_⟩
  · rw [compact, compactAt_eq_error_iff]
    simp
  · rw [compact]
    cases hcompact : compactAt false tree with
    | error fault => simp [((compactAt_eq_error_iff false tree fault).1 hcompact).2]
    | ok written =>
      have hmeasured : ¬HasUnmeasured false tree := by
        intro hunmeasured
        have herror := (compactAt_eq_error_iff false tree _).2 ⟨rfl, hunmeasured⟩
        simp [hcompact] at herror
      simp [hmeasured]
  · intro written hwritten
    obtain ⟨phrase, hphrase⟩ := exists_phrase_of_compactAt hwritten
    have hhead := hphrase.head?_eq_iff
    refine ⟨?_, ?_, ?_, ?_⟩
    · intro hopening
      obtain ⟨copy, hread, hcopy⟩ :=
        readTree_pieces name hphrase.valid (hhead.1 hopening) hphrase.toList_eq
      refine ⟨copy, hread, ?_⟩
      rw [Tree.same_eq_true_iff, hcopy, hphrase.content_eq]
    · constructor
      · intro hshort
        have hlist : phrase.isList = false := by
          rwa [ne_eq, hhead, Bool.not_eq_true] at hshort
        obtain ⟨hleaf, hchildren, hsource⟩ := hphrase.short hlist
        exact ⟨hchildren, hphrase.value_eq hlist ▸ hleaf.bare_or_raw, hsource⟩
      · rintro ⟨-, hword | hraw, -⟩
        · exact @Phrase.IsShort.head?_value (.word written) hword
        · exact @Phrase.IsShort.head?_value (.string written) hraw
    · intro hshort
      have hlist : phrase.isList = false := by
        rwa [ne_eq, hhead, Bool.not_eq_true] at hshort
      rw [← hphrase.value_eq hlist]
      exact readTree_value name (hphrase.short hlist).1
    · intro kind
      obtain ⟨parent, copy, hread, hcopy, hcontent⟩ := hphrase.readTree_second name kind
      exact ⟨parent, copy, hread, hcopy, (Tree.same_eq_true_iff copy tree).2 hcontent⟩

/-- Of two equal literals only the second is shortened, and both are read back. -/
theorem compact_roundtrip_literals :
    compact (.node .argumentList none none
        [.leaf .stringLiteral "\"s\"" none, .leaf .stringLiteral "\"s\"" none]) =
      .ok "(ARGUMENT_LIST (STRING_LITERAL \"\\\"s\\\"\") \"s\")" ∧
    ∃ copy, readTree none "(ARGUMENT_LIST (STRING_LITERAL \"\\\"s\\\"\") \"s\")" = .ok copy ∧
      Tree.same copy (.node .argumentList none none
        [.leaf .stringLiteral "\"s\"" none, .leaf .stringLiteral "\"s\"" none]) = true := by
  have hcompact : compact (.node .argumentList none none
        [.leaf .stringLiteral "\"s\"" none, .leaf .stringLiteral "\"s\"" none]) =
      .ok "(ARGUMENT_LIST (STRING_LITERAL \"\\\"s\\\"\") \"s\")" := by rfl
  exact ⟨hcompact, ((compact_roundtrip none _).2.2 _ hcompact).1 (by simp)⟩

end NescTree.Notation
