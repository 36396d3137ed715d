import NescTree.Proofs.Render.ExpressionText
import NescTree.Proofs.Render.StatementText
import NescTree.Proofs.Text.Words

/-!
# Rendered statements keep their structure

White space means nothing between the words of a statement, so its structure has to be in
the words.  The first word of a statement tells its kind, and a statement ends where its
last part does.  Only an `else` can be taken for a part of an earlier statement than the
one it was written for.  Where no `else` stands after a statement that could take it, the
words give back the statement, up to what is never written: the nodes in front of the
labels of jumps, and texts that were given to nodes other than names.
-/

namespace NescTree.Render

open Text

def statementKeywords : List String :=
  ["atomic", "break", "case", "continue", "default", "do", "else", "for", "goto", "if",
    "return", "switch", "while"]

/-- Whether a text is a name: a word without the marks that stand next to names, and no
keyword. -/
def IsName (name : String) : Prop :=
  IsSolid name.toList ∧ (∀ mark ∈ "():;\x7b\x7d".toList, mark ∉ name.toList) ∧
    name ∉ statementKeywords

instance (name : String) : Decidable (IsName name) :=
  @instDecidableAnd _ _ inferInstance (@instDecidableAnd _ _ (List.decidableBAll _ _) inferInstance)

def IsNameLeaf (tree : Tree) : Prop :=
  ∃ name span, IsName name ∧ tree = .node .identifier (some name) span []

abbrev IsNamedStatement : Tree → Prop := IsStatement IsNameLeaf IsNameLeaf

section Words

def leafText (tree : Tree) : List Char := (tree.text.getD "").toList

mutual

@[simp] def statementWords : Tree → List (List Char)
  | .node .statement _ _ children => [children.flatMap leafText ++ [';']]
  | .node .compound _ _ children => ['\x7b'] :: (statementsWords children ++ [['\x7d']])
  | .node .labeled _ _ [target, statement] =>
    (leafText target ++ [':']) :: statementWords statement
  | .node .caseLabel _ _ [value, statement] =>
    "case".toList :: (leafText value ++ [':']) :: statementWords statement
  | .node .defaultLabel _ _ [statement] => "default:".toList :: statementWords statement
  | .node .atomic _ _ [statement] => "atomic".toList :: statementWords statement
  | .node .ifElse _ _ [condition, first] =>
    "if(".toList :: leafText condition :: [')'] :: statementWords first
  | .node .ifElse _ _ [condition, first, second] =>
    "if(".toList :: leafText condition :: [')'] ::
      (statementWords first ++ "else".toList :: statementWords second)
  | .node .switch _ _ [value, statement] =>
    "switch(".toList :: leafText value :: [')'] :: statementWords statement
  | .node .whileLoop _ _ [condition, statement] =>
    "while(".toList :: leafText condition :: [')'] :: statementWords statement
  | .node .doLoop _ _ [statement, condition] =>
    "do".toList :: (statementWords statement ++
      ["while(".toList, leafText condition ++ [')', ';']])
  | .node .forLoop _ _ [first, second, third, statement] =>
    "for(".toList :: (first.children.flatMap leafText ++ [';']) ::
      (second.children.flatMap leafText ++ [';']) ::
        (third.children.map leafText ++ [')'] :: statementWords statement)
  | .node .gotoJump _ _ children =>
    ["goto".toList, children.getLast?.toList.flatMap leafText ++ [';']]
  | .node .continueJump _ _ _ => ["continue;".toList]
  | .node .breakJump _ _ _ => ["break;".toList]
  | .node .returnJump _ _ children => ["return".toList, children.flatMap leafText ++ [';']]
  | _ => []

def statementsWords : List Tree → List (List Char)
  | [] => []
  | statement :: statements => statementWords statement ++ statementsWords statements

end

theorem statementsWords_eq_flatMap (statements : List Tree) :
    statementsWords statements = statements.flatMap statementWords := by
  induction statements with
  | nil => rfl
  | cons statement statements ih => rw [statementsWords, ih, List.flatMap_cons]

theorem IsNameLeaf.renders {tree : Tree} (htree : IsNameLeaf tree) : Renders tree := by
  obtain ⟨name, span, -, rfl⟩ := htree
  exact renders_of_writes fun _ => writes_leaf name (.inl rfl)

theorem IsNameLeaf.textIn_eq {tree : Tree} (htree : IsNameLeaf tree) (state : State) :
    textIn state tree = leafText tree := by
  obtain ⟨name, span, -, rfl⟩ := htree
  exact (writes_leaf name (.inl rfl)).textIn_eq

theorem IsNameLeaf.text_eq {tree : Tree} (htree : IsNameLeaf tree) :
    ∃ name, tree.text = some name ∧ name.toList = leafText tree := by
  obtain ⟨name, span, -, rfl⟩ := htree
  exact ⟨name, rfl, rfl⟩

theorem IsNameLeaf.isSolid {tree : Tree} (htree : IsNameLeaf tree) :
    IsSolid (leafText tree) := by
  obtain ⟨name, span, hname, rfl⟩ := htree
  exact hname.1

theorem renders_of_isNamedStatement {tree : Tree} (htree : IsNamedStatement tree) :
    Renders tree :=
  htree.renders (fun _ hexpression => hexpression.renders) fun _ htarget =>
    ⟨htarget.renders, htarget.text_eq.imp fun _ hname => hname.1⟩

theorem IsNameLeaf.isSolid_append {tree : Tree} (htree : IsNameLeaf tree) {marks : List Char}
    (hmarks : IsSolid marks) : IsSolid (leafText tree ++ marks) :=
  Text.isSolid_append htree.isSolid.2 hmarks

section Optional

variable {leaf? : Option Tree} (hleaf : ∀ leaf ∈ leaf?, IsNameLeaf leaf)
include hleaf

theorem optionalText_eq_flatMap (state : State) :
    optionalText (textIn state) leaf? = leaf?.toList.flatMap leafText := by
  cases leaf? with
  | none => rfl
  | some leaf => simp [hleaf leaf rfl |>.textIn_eq state]

/-- A name or nothing, with the semicolon after it. -/
theorem isSolid_optional : IsSolid (leaf?.toList.flatMap leafText ++ [';']) := by
  apply Text.isSolid_append
  · cases leaf? with
    | none => simp
    | some leaf => simpa using (hleaf leaf rfl).isSolid.2
  · decide

theorem writes_namedClause (clause : ForClause) (label : Option String) (span : Option Span)
    (state : State) : (treeDoc (.node (.forClause clause) label span leaf?.toList)).Writes state
      (leaf?.toList.flatMap leafText) :=
  (writes_forClause fun leaf hmem => (hleaf leaf hmem).renders _).congr
    (optionalText_eq_flatMap hleaf _)

/-- The last clause of a loop, with the space and the parenthesis after it. -/
theorem splits_lastClause {text : List Char} {found : List (List Char)}
    (htext : Splits text found) :
    Splits (leaf?.toList.flatMap leafText ++ ' ' :: text)
      (leaf?.toList.map leafText ++ found) := by
  cases leaf? with
  | none => exact .blank (by decide) htext
  | some leaf =>
    have hwords := Splits.spaced (hleaf leaf rfl).isSolid htext
    simpa using hwords

end Optional

/-- The words of a statement are the same at every indentation. -/
theorem splits_textIn {tree : Tree} (htree : IsNamedStatement tree) (state : State) :
    Splits (textIn state tree) (statementWords tree) := by
  induction htree generalizing state with
  | simple hexpression =>
    rw [(writes_simple fun expression hmem => (hexpression expression hmem).renders _).textIn_eq,
      optionalText_eq_flatMap hexpression]
    have hwords := Splits.spaces state.margin (.ended (isSolid_optional hexpression) .nil)
    simpa using hwords
  | compound hstatements ih =>
    rw [(writes_compound fun statement hmem =>
        renders_of_isNamedStatement (hstatements statement hmem) _).textIn_eq,
      statementWords, statementsWords_eq_flatMap]
    have hwords := Splits.spaces state.margin (.ended (by decide : IsSolid ['\x7b'])
      (.append (.flatMap fun statement hmem =>
        ih statement hmem { state with level := state.level + 1 })
      (.spaces state.margin (.ended (by decide : IsSolid ['\x7d']) .nil))))
    simpa using hwords
  | labeled htarget hstatement ih =>
    obtain ⟨name, hname, htext⟩ := htarget.text_eq
    rw [(writes_labeled hname (renders_of_isNamedStatement hstatement _)).textIn_eq, htext]
    have hwords := Splits.spaces { state with level := state.level + -1 }.margin (.ended
      (htarget.isSolid_append (by decide : IsSolid [':'])) (ih state))
    simpa using hwords
  | caseLabel hvalue hstatement ih =>
    rw [(writes_caseLabel (hvalue.renders _)
      (renders_of_isNamedStatement hstatement _)).textIn_eq, hvalue.textIn_eq]
    have hwords := Splits.spaces { state with level := state.level + -1 }.margin (.spaced
      (by decide : IsSolid "case".toList) (.ended
        (hvalue.isSolid_append (by decide : IsSolid [':'])) (ih state)))
    simpa using hwords
  | defaultLabel hstatement ih =>
    rw [(writes_defaultLabel (renders_of_isNamedStatement hstatement _)).textIn_eq]
    have hwords := Splits.spaces { state with level := state.level + -1 }.margin
      (.ended (by decide : IsSolid "default:".toList) (ih state))
    simpa using hwords
  | @atomic _ _ statement hstatement ih =>
    rw [(writes_atomic (renders_of_isNamedStatement hstatement _)).textIn_eq]
    have hwords := Splits.spaces state.margin
      (.ended (by decide : IsSolid "atomic".toList) (ih (bodyState statement state)))
    simpa using hwords
  | @ifThen _ _ _ first hcondition hfirst ih =>
    rw [(writes_ifThen (hcondition.renders _) (renders_of_isNamedStatement hfirst _)).textIn_eq,
      hcondition.textIn_eq]
    have hwords := Splits.spaces state.margin (.spaced (by decide : IsSolid "if(".toList)
      (.spaced hcondition.isSolid (.ended (by decide : IsSolid [')'])
        (ih (bodyState first state)))))
    simpa using hwords
  | @ifElse _ _ _ first second hcondition hfirst hsecond ihfirst ihsecond =>
    rw [(writes_ifElse (hcondition.renders _) (renders_of_isNamedStatement hfirst _)
      (renders_of_isNamedStatement hsecond _)).textIn_eq, hcondition.textIn_eq]
    have hwords := Splits.spaces state.margin (.spaced (by decide : IsSolid "if(".toList)
      (.spaced hcondition.isSolid (.ended (by decide : IsSolid [')'])
        (.append (ihfirst (bodyState first state)) (.spaces state.margin
          (.ended (by decide : IsSolid "else".toList) (ihsecond (bodyState second state))))))))
    simpa using hwords
  | @switch _ _ _ statement hvalue hstatement ih =>
    rw [(writes_switch (hvalue.renders _) (renders_of_isNamedStatement hstatement _)).textIn_eq,
      hvalue.textIn_eq]
    have hwords := Splits.spaces state.margin (.spaced (by decide : IsSolid "switch(".toList)
      (.spaced hvalue.isSolid (.ended (by decide : IsSolid [')'])
        (ih (bodyState statement state)))))
    simpa using hwords
  | @whileLoop _ _ _ statement hcondition hstatement ih =>
    rw [(writes_whileLoop (hcondition.renders _)
      (renders_of_isNamedStatement hstatement _)).textIn_eq, hcondition.textIn_eq]
    have hwords := Splits.spaces state.margin (.spaced (by decide : IsSolid "while(".toList)
      (.spaced hcondition.isSolid (.ended (by decide : IsSolid [')'])
        (ih (bodyState statement state)))))
    simpa using hwords
  | @doLoop _ _ statement _ hstatement hcondition ih =>
    rw [(writes_doLoop (renders_of_isNamedStatement hstatement _)
      (hcondition.renders _)).textIn_eq, hcondition.textIn_eq]
    have hwords := Splits.spaces state.margin (.ended (by decide : IsSolid "do".toList)
      (.append (ih (bodyState statement state)) (.spaces state.margin
        (.spaced (by decide : IsSolid "while(".toList) (.ended
          (hcondition.isSolid_append (by decide : IsSolid [')', ';'])) .nil)))))
    simpa using hwords
  | @forLoop _ _ _ _ _ _ _ _ _ _ _ statement hfirst hsecond hthird hstatement ih =>
    rw [(writes_forLoop (writes_namedClause hfirst _ _ _ _) (writes_namedClause hsecond _ _ _ _)
      (writes_namedClause hthird _ _ _ _) (renders_of_isNamedStatement hstatement _)).textIn_eq]
    have hwords := Splits.spaces state.margin (.spaced (by decide : IsSolid "for(".toList)
      (.spaced (isSolid_optional hfirst) (.spaced (isSolid_optional hsecond)
        (splits_lastClause hthird (.ended (by decide : IsSolid [')'])
          (ih (bodyState statement state)))))))
    simpa using hwords
  | gotoJump htarget =>
    rw [(writes_gotoJump (htarget.renders _)).textIn_eq, htarget.textIn_eq]
    have hwords := Splits.spaces state.margin (.spaced (by decide : IsSolid "goto".toList)
      (.ended (htarget.isSolid_append (by decide : IsSolid [';'])) .nil))
    simpa using hwords
  | continueJump =>
    rw [writes_continueJump.textIn_eq]
    have hwords := Splits.spaces state.margin
      (.ended (by decide : IsSolid "continue;".toList) .nil)
    simpa using hwords
  | breakJump =>
    rw [writes_breakJump.textIn_eq]
    have hwords := Splits.spaces state.margin (.ended (by decide : IsSolid "break;".toList) .nil)
    simpa using hwords
  | returnJump hexpression =>
    rw [(writes_returnJump fun expression hmem =>
        (hexpression expression hmem).renders _).textIn_eq, optionalText_eq_flatMap hexpression]
    have hwords := Splits.spaces state.margin (.spaced (by decide : IsSolid "return".toList)
      (.ended (isSolid_optional hexpression) .nil))
    simpa using hwords

end Words

section Forms

mutual

/-- A statement without what is never written: the nodes in front of the labels of jumps, and
the texts of all nodes but names. -/
def withoutUnwritten : Tree → Tree
  | .node .identifier label span children =>
    .node .identifier label span (allWithoutUnwritten children)
  | .node .gotoJump _ span children =>
    .node .gotoJump none span (allWithoutUnwritten children).getLast?.toList
  | .node kind _ span children => .node kind none span (allWithoutUnwritten children)

def allWithoutUnwritten : List Tree → List Tree
  | [] => []
  | tree :: trees => withoutUnwritten tree :: allWithoutUnwritten trees

end

/-- Whether a statement ends with an `if` that has no `else`, so that it could take one. -/
def endsOpen : Tree → Bool
  | .node .ifElse _ _ [_, _] => true
  | .node .ifElse _ _ [_, _, last] | .node .labeled _ _ [_, last] | .node .caseLabel _ _ [_, last]
  | .node .defaultLabel _ _ [last] | .node .atomic _ _ [last] | .node .switch _ _ [_, last]
  | .node .whileLoop _ _ [_, last] | .node .forLoop _ _ [_, _, _, last] => endsOpen last
  | _ => false

/-- Whether an `else` stands after a statement that could take it. -/
def hasDanglingElse : Kind → List Tree → Bool
  | .ifElse, [_, first, _] => endsOpen first
  | _, _ => false

mutual

/-- Whether every `else` in a statement belongs to the `if` that it was written for. -/
def elsesBound : Tree → Bool
  | .node .gotoJump _ _ _ => true
  | .node kind _ _ children => !hasDanglingElse kind children && allElsesBound children

def allElsesBound : List Tree → Bool
  | [] => true
  | tree :: trees => elsesBound tree && allElsesBound trees

end

variable {kind : Kind} {label : Option String} {span : Option Span} {children : List Tree}

theorem allWithoutUnwritten_eq_map (trees : List Tree) :
    allWithoutUnwritten trees = trees.map withoutUnwritten := by
  induction trees with
  | nil => rfl
  | cons tree trees ih => rw [allWithoutUnwritten, ih, List.map_cons]

theorem allElsesBound_eq_true_iff (trees : List Tree) :
    allElsesBound trees = true ↔ ∀ tree ∈ trees, elsesBound tree = true := by
  induction trees with
  | nil => simp [allElsesBound]
  | cons tree trees ih => rw [allElsesBound, Bool.and_eq_true, ih, List.forall_mem_cons]

theorem elsesBound_node (hkind : kind ≠ .gotoJump)
    (hbound : elsesBound (.node kind label span children) = true) :
    hasDanglingElse kind children = false ∧ ∀ child ∈ children, elsesBound child = true := by
  rw [elsesBound, Bool.and_eq_true, Bool.not_eq_true', allElsesBound_eq_true_iff] at hbound
  · exact hbound
  · exact hkind

/-- What the words of a statement can tell of it. -/
def form (tree : Tree) : Tree := (withoutUnwritten tree).content

theorem form_node (hname : kind ≠ .identifier) (hjump : kind ≠ .gotoJump) :
    form (.node kind label span children) =
      .node kind (kind.textOr none) none (children.map form) := by
  rw [form, withoutUnwritten, Tree.content_node, allWithoutUnwritten_eq_map, List.map_map]
  · rfl
  · exact hname
  · exact hjump

theorem form_gotoJump (leading? : Option Tree) (target : Tree) :
    form (.node .gotoJump label span (leading?.toList ++ [target])) =
      .node .gotoJump none none [form target] := by
  rw [form, withoutUnwritten, Tree.content_node, allWithoutUnwritten_eq_map, List.map_append,
    List.map_singleton, List.getLast?_concat]
  rfl

end Forms

section Leads

/-- The words that start a statement, with its kind, where no name is part of them. -/
def openings : List (List Char × Kind) :=
  [(['\x7b'], .compound), ("case".toList, .caseLabel), ("default:".toList, .defaultLabel),
    ("atomic".toList, .atomic), ("if(".toList, .ifElse), ("switch(".toList, .switch),
    ("while(".toList, .whileLoop), ("do".toList, .doLoop), ("for(".toList, .forLoop),
    ("goto".toList, .gotoJump), ("continue;".toList, .continueJump),
    ("break;".toList, .breakJump), ("return".toList, .returnJump)]

def leadKind? (word : List Char) : Option Kind :=
  match openings.lookup word with
  | some kind => some kind
  | none =>
    match word.getLast? with
    | some ';' => some .statement
    | some ':' => some .labeled
    | _ => none

/-- No name with a mark after it is taken for another word. -/
theorem lookup_openings_append {name : String} (hname : IsName name) {mark : Char}
    (hmark : mark = ';' ∨ mark = ':') : openings.lookup (name.toList ++ [mark]) = none := by
  have hkeywords : ∀ opening ∈ openings,
      opening.1.getLast? = some ';' ∨ opening.1.getLast? = some ':' →
        String.ofList opening.1.dropLast ∈ statementKeywords := by
    decide
  rw [List.lookup_eq_none_iff]
  intro opening hmem
  rw [bne_iff_ne]
  intro heq
  have hkeyword := hkeywords opening hmem (by rw [← heq]; simpa using hmark)
  rw [← heq, List.dropLast_concat, String.ofList_toList] at hkeyword
  exact hname.2.2 hkeyword

theorem leadKind?_optional {leaf? : Option Tree} (hleaf : ∀ leaf ∈ leaf?, IsNameLeaf leaf) :
    leadKind? (leaf?.toList.flatMap leafText ++ [';']) = some .statement := by
  cases leaf? with
  | none => rfl
  | some leaf =>
    obtain ⟨name, span, hname, rfl⟩ := hleaf leaf rfl
    have hlookup := lookup_openings_append hname (.inl rfl)
    have hword : leafText (.node .identifier (some name) span []) = name.toList := rfl
    simp [leadKind?, hword, hlookup]

theorem leadKind?_label {leaf : Tree} (hleaf : IsNameLeaf leaf) :
    leadKind? (leafText leaf ++ [':']) = some .labeled := by
  obtain ⟨name, span, hname, rfl⟩ := hleaf
  have hlookup := lookup_openings_append hname (.inr rfl)
  have hword : leafText (.node .identifier (some name) span []) = name.toList := rfl
  simp [leadKind?, hword, hlookup]

/-- The first word of a statement tells its kind. -/
theorem exists_statementWords_eq_cons {tree : Tree} (htree : IsNamedStatement tree) :
    ∃ word more, statementWords tree = word :: more ∧ leadKind? word = some tree.kind := by
  cases htree with
  | simple hexpression => exact ⟨_, _, by rw [statementWords], leadKind?_optional hexpression⟩
  | labeled htarget => exact ⟨_, _, by rw [statementWords], leadKind?_label htarget⟩
  | _ => exact ⟨_, _, by rw [statementWords], rfl⟩

variable {rest otherRest : List (List Char)}

theorem kind_eq_of_append {tree other : Tree} (htree : IsNamedStatement tree)
    (hother : IsNamedStatement other)
    (heq : statementWords tree ++ rest = statementWords other ++ otherRest) :
    tree.kind = other.kind := by
  obtain ⟨word, more, hwords, hkind⟩ := exists_statementWords_eq_cons htree
  obtain ⟨otherWord, otherMore, hotherWords, hotherKind⟩ := exists_statementWords_eq_cons hother
  rw [hwords, hotherWords, List.cons_append, List.cons_append, List.cons.injEq] at heq
  rw [heq.1, hotherKind, Option.some.injEq] at hkind
  exact hkind.symm

/-- A statement does not start with a word that starts none. -/
theorem append_ne_cons {tree : Tree} (htree : IsNamedStatement tree) {word : List Char}
    (hword : leadKind? word = none) : statementWords tree ++ rest ≠ word :: otherRest := by
  intro heq
  obtain ⟨first, more, hwords, hkind⟩ := exists_statementWords_eq_cons htree
  rw [hwords, List.cons_append, List.cons.injEq] at heq
  rw [heq.1, hword] at hkind
  cases hkind

end Leads

section Recovery

variable {rest otherRest : List (List Char)}

theorem form_eq_of_leafText_eq {leaf other : Tree} (hleaf : IsNameLeaf leaf)
    (hother : IsNameLeaf other) (htext : leafText leaf = leafText other) :
    form leaf = form other := by
  obtain ⟨name, span, -, rfl⟩ := hleaf
  obtain ⟨otherName, otherSpan, -, rfl⟩ := hother
  obtain rfl : name = otherName := String.toList_injective htext
  rfl

/-- Two names, or none at both places, told apart by their texts. -/
theorem map_form_eq_of_flatMap_eq {leaf? other? : Option Tree}
    (hleaf : ∀ leaf ∈ leaf?, IsNameLeaf leaf) (hother : ∀ other ∈ other?, IsNameLeaf other)
    (htext : leaf?.toList.flatMap leafText = other?.toList.flatMap leafText) :
    leaf?.toList.map form = other?.toList.map form := by
  cases leaf? with
  | none =>
    cases other? with
    | none => rfl
    | some other => exact absurd htext.symm (by simpa using (hother other rfl).isSolid.1)
  | some leaf =>
    cases other? with
    | none => exact absurd htext (by simpa using (hleaf leaf rfl).isSolid.1)
    | some other =>
      simpa using form_eq_of_leafText_eq (hleaf leaf rfl) (hother other rfl) (by simpa using htext)

/-- No name is a parenthesis. -/
theorem IsNameLeaf.leafText_ne {leaf : Tree} (hleaf : IsNameLeaf leaf) :
    leafText leaf ≠ [')'] := by
  obtain ⟨name, span, hname, rfl⟩ := hleaf
  intro heq
  have hword : name.toList = [')'] := heq
  exact hname.2.1 ')' (by simp) (by simp [hword])

/-- The last clause of a loop and what comes after it. -/
theorem lastClause_append_inj {leaf? other? : Option Tree}
    (hleaf : ∀ leaf ∈ leaf?, IsNameLeaf leaf) (hother : ∀ other ∈ other?, IsNameLeaf other)
    (heq : leaf?.toList.map leafText ++ [')'] :: rest =
      other?.toList.map leafText ++ [')'] :: otherRest) :
    leaf?.toList.map form = other?.toList.map form ∧ rest = otherRest := by
  cases leaf? with
  | none =>
    cases other? with
    | none => simpa using heq
    | some other => exact absurd (List.head_eq_of_cons_eq heq).symm (hother other rfl).leafText_ne
  | some leaf =>
    cases other? with
    | none => exact absurd (List.head_eq_of_cons_eq heq) (hleaf leaf rfl).leafText_ne
    | some other =>
      simp only [Option.toList_some, List.map_cons, List.map_nil, List.cons_append,
        List.nil_append, List.cons.injEq, true_and] at heq
      refine ⟨?_, heq.2⟩
      simpa using form_eq_of_leafText_eq (hleaf leaf rfl) (hother other rfl) heq.1

/-- What comes after a statement is no `else` that the statement could take. -/
def Closes (tree : Tree) (rest : List (List Char)) : Prop :=
  endsOpen tree = true → rest.head? ≠ some "else".toList

theorem closes_of_ne {tree : Tree} {word : List Char} (hword : word ≠ "else".toList) :
    Closes tree (word :: rest) := by
  intro _ hhead
  exact hword (Option.some.inj hhead)

theorem closes_of_closed {tree : Tree} (hclosed : endsOpen tree = false) : Closes tree rest :=
  fun hopen => absurd hopen (by simp [hclosed])

/-- A statement can be told from every other by its words, and where it ends. -/
def StatementReads (tree : Tree) : Prop :=
  ∀ ⦃other : Tree⦄ ⦃rest otherRest : List (List Char)⦄, IsNamedStatement other →
    elsesBound other = true → Closes tree rest → Closes other otherRest →
    statementWords tree ++ rest = statementWords other ++ otherRest →
    form tree = form other ∧ rest = otherRest

/-- A statement in a block is not followed by an `else`. -/
theorem closes_statements {tree : Tree} {statements : List Tree}
    (hstatements : ∀ statement ∈ statements, IsNamedStatement statement) :
    Closes tree (statements.flatMap statementWords ++ ['\x7d'] :: rest) := by
  cases statements with
  | nil => exact closes_of_ne (by decide)
  | cons statement statements =>
    intro _ hhead
    obtain ⟨word, more, hwords, hkind⟩ :=
      exists_statementWords_eq_cons (hstatements statement List.mem_cons_self)
    rw [List.flatMap_cons, hwords] at hhead
    obtain rfl : word = "else".toList := by simpa using hhead
    cases hkind

/-- The statements of a block can be told apart up to its brace. -/
theorem statements_append_inj {statements others : List Tree}
    (hreads : ∀ statement ∈ statements, StatementReads statement)
    (hstatements : ∀ statement ∈ statements, IsNamedStatement statement)
    (hothers : ∀ other ∈ others, IsNamedStatement other)
    (hbound : ∀ other ∈ others, elsesBound other = true)
    (heq : statements.flatMap statementWords ++ ['\x7d'] :: rest =
      others.flatMap statementWords ++ ['\x7d'] :: otherRest) :
    statements.map form = others.map form ∧ rest = otherRest := by
  induction statements generalizing others with
  | nil =>
    cases others with
    | nil => simpa using heq
    | cons other others =>
      rw [List.flatMap_cons, List.append_assoc] at heq
      exact absurd heq.symm (append_ne_cons (hothers other List.mem_cons_self) rfl)
  | cons statement statements ih =>
    obtain ⟨hstatement, htail⟩ := List.forall_mem_cons.1 hstatements
    rw [List.flatMap_cons, List.append_assoc] at heq
    cases others with
    | nil => exact absurd heq (append_ne_cons hstatement rfl)
    | cons other others =>
      obtain ⟨hread, hreadTail⟩ := List.forall_mem_cons.1 hreads
      obtain ⟨hother, hotherTail⟩ := List.forall_mem_cons.1 hothers
      obtain ⟨helse, helseTail⟩ := List.forall_mem_cons.1 hbound
      rw [List.flatMap_cons, List.append_assoc] at heq
      obtain ⟨hform, hremaining⟩ :=
        hread hother helse (closes_statements htail) (closes_statements hotherTail) heq
      obtain ⟨hforms, hend⟩ := ih hreadTail htail hotherTail helseTail hremaining
      exact ⟨by rw [List.map_cons, List.map_cons, hform, hforms], hend⟩

end Recovery

section Statements

variable {label : Option String} {span : Option Span} {statement : Tree}

theorem elsesBound_of_mem {kind : Kind} {children : List Tree}
    (hbound : elsesBound (.node kind label span children) = true) (hkind : kind ≠ .gotoJump)
    {child : Tree} (hmem : child ∈ children) : elsesBound child = true :=
  (elsesBound_node hkind hbound).2 child hmem

theorem reads_simple {expression? : Option Tree}
    (hexpression : ∀ expression ∈ expression?, IsNameLeaf expression) :
    StatementReads (.node .statement label span expression?.toList) := by
  intro other rest otherRest hother hbound hrest hotherRest heq
  have hkind := kind_eq_of_append (.simple hexpression) hother heq
  cases hother with
  | simple hotherExpression =>
    simp only [statementWords, List.cons_append, List.nil_append, List.cons.injEq,
      List.append_cancel_right_eq] at heq
    refine ⟨?_, heq.2⟩
    rw [form_node (by decide) (by decide), form_node (by decide) (by decide),
      map_form_eq_of_flatMap_eq hexpression hotherExpression heq.1]
  | _ => cases hkind

theorem reads_compound {statements : List Tree}
    (hstatements : ∀ statement ∈ statements, IsNamedStatement statement)
    (hreads : ∀ statement ∈ statements, StatementReads statement) :
    StatementReads (.node .compound label span statements) := by
  intro other rest otherRest hother hbound hrest hotherRest heq
  have hkind := kind_eq_of_append (.compound hstatements) hother heq
  cases hother with
  | compound hothers =>
    simp only [statementWords, statementsWords_eq_flatMap, List.cons_append, List.append_assoc,
      List.nil_append, List.cons.injEq, true_and] at heq
    obtain ⟨hforms, hend⟩ := statements_append_inj hreads hstatements hothers
      (fun other hmem => elsesBound_of_mem hbound (by decide) hmem) heq
    refine ⟨?_, hend⟩
    rw [form_node (by decide) (by decide), form_node (by decide) (by decide), hforms]
  | _ => cases hkind

theorem reads_labeled {target : Tree} (htarget : IsNameLeaf target)
    (hstatement : IsNamedStatement statement) (hread : StatementReads statement) :
    StatementReads (.node .labeled label span [target, statement]) := by
  intro other rest otherRest hother hbound hrest hotherRest heq
  have hkind := kind_eq_of_append (.labeled htarget hstatement) hother heq
  cases hother with
  | labeled hotherTarget hotherStatement =>
    simp only [statementWords, List.cons_append, List.cons.injEq,
      List.append_cancel_right_eq] at heq
    obtain ⟨hforms, hend⟩ := hread hotherStatement
      (elsesBound_of_mem hbound (by decide) (by simp)) hrest hotherRest heq.2
    exact ⟨by simp [form_node, form_eq_of_leafText_eq htarget hotherTarget heq.1, hforms], hend⟩
  | _ => cases hkind

theorem reads_caseLabel {value : Tree} (hvalue : IsNameLeaf value)
    (hstatement : IsNamedStatement statement) (hread : StatementReads statement) :
    StatementReads (.node .caseLabel label span [value, statement]) := by
  intro other rest otherRest hother hbound hrest hotherRest heq
  have hkind := kind_eq_of_append (.caseLabel hvalue hstatement) hother heq
  cases hother with
  | caseLabel hotherValue hotherStatement =>
    simp only [statementWords, List.cons_append, List.cons.injEq, true_and,
      List.append_cancel_right_eq] at heq
    obtain ⟨hforms, hend⟩ := hread hotherStatement
      (elsesBound_of_mem hbound (by decide) (by simp)) hrest hotherRest heq.2
    exact ⟨by simp [form_node, form_eq_of_leafText_eq hvalue hotherValue heq.1, hforms], hend⟩
  | _ => cases hkind

theorem reads_defaultLabel (hstatement : IsNamedStatement statement)
    (hread : StatementReads statement) :
    StatementReads (.node .defaultLabel label span [statement]) := by
  intro other rest otherRest hother hbound hrest hotherRest heq
  have hkind := kind_eq_of_append (.defaultLabel hstatement) hother heq
  cases hother with
  | defaultLabel hotherStatement =>
    simp only [statementWords, List.cons_append, List.cons.injEq, true_and] at heq
    obtain ⟨hforms, hend⟩ := hread hotherStatement
      (elsesBound_of_mem hbound (by decide) (by simp)) hrest hotherRest heq
    exact ⟨by simp [form_node, hforms], hend⟩
  | _ => cases hkind

theorem reads_atomic (hstatement : IsNamedStatement statement)
    (hread : StatementReads statement) :
    StatementReads (.node .atomic label span [statement]) := by
  intro other rest otherRest hother hbound hrest hotherRest heq
  have hkind := kind_eq_of_append (.atomic hstatement) hother heq
  cases hother with
  | atomic hotherStatement =>
    simp only [statementWords, List.cons_append, List.cons.injEq, true_and] at heq
    obtain ⟨hforms, hend⟩ := hread hotherStatement
      (elsesBound_of_mem hbound (by decide) (by simp)) hrest hotherRest heq
    exact ⟨by simp [form_node, hforms], hend⟩
  | _ => cases hkind

theorem reads_ifThen {condition first : Tree} (hcondition : IsNameLeaf condition)
    (hfirst : IsNamedStatement first) (hread : StatementReads first) :
    StatementReads (.node .ifElse label span [condition, first]) := by
  intro other rest otherRest hother hbound hrest hotherRest heq
  have hkind := kind_eq_of_append (.ifThen hcondition hfirst) hother heq
  have helse : rest.head? ≠ some "else".toList := hrest (by rw [endsOpen])
  cases hother with
  | ifThen hotherCondition hotherFirst =>
    have hotherElse : otherRest.head? ≠ some "else".toList := hotherRest (by rw [endsOpen])
    simp only [statementWords, List.cons_append, List.cons.injEq, true_and] at heq
    obtain ⟨hforms, hend⟩ := hread hotherFirst
      (elsesBound_of_mem hbound (by decide) (by simp)) (fun _ => helse) (fun _ => hotherElse) heq.2
    exact ⟨by simp [form_node, form_eq_of_leafText_eq hcondition hotherCondition heq.1, hforms],
      hend⟩
  | ifElse hotherCondition hotherFirst hotherSecond =>
    simp only [statementWords, List.cons_append, List.append_assoc, List.cons.injEq,
      true_and] at heq
    obtain ⟨-, hend⟩ := hread hotherFirst (elsesBound_of_mem hbound (by decide) (by simp))
      (fun _ => helse) (closes_of_closed (elsesBound_node (by decide) hbound).1) heq.2
    rw [hend] at helse
    exact absurd rfl helse
  | _ => cases hkind

theorem reads_ifElse {condition first second : Tree} (hcondition : IsNameLeaf condition)
    (hfirst : IsNamedStatement first) (hsecond : IsNamedStatement second)
    (helses : elsesBound (.node .ifElse label span [condition, first, second]) = true)
    (hreadFirst : StatementReads first) (hreadSecond : StatementReads second) :
    StatementReads (.node .ifElse label span [condition, first, second]) := by
  intro other rest otherRest hother hbound hrest hotherRest heq
  have hkind := kind_eq_of_append (.ifElse hcondition hfirst hsecond) hother heq
  have hclosed : endsOpen first = false := (elsesBound_node (by decide) helses).1
  cases hother with
  | ifThen hotherCondition hotherFirst =>
    have hotherElse : otherRest.head? ≠ some "else".toList := hotherRest (by rw [endsOpen])
    simp only [statementWords, List.cons_append, List.append_assoc, List.cons.injEq,
      true_and] at heq
    obtain ⟨-, hend⟩ := hreadFirst hotherFirst (elsesBound_of_mem hbound (by decide) (by simp))
      (closes_of_closed hclosed) (fun _ => hotherElse) heq.2
    rw [← hend] at hotherElse
    exact absurd rfl hotherElse
  | ifElse hotherCondition hotherFirst hotherSecond =>
    have hotherClosed := (elsesBound_node (by decide) hbound).1
    simp only [statementWords, List.cons_append, List.append_assoc, List.cons.injEq,
      true_and] at heq
    obtain ⟨hfirsts, hinner⟩ := hreadFirst hotherFirst
      (elsesBound_of_mem hbound (by decide) (by simp))
      (closes_of_closed hclosed) (closes_of_closed hotherClosed) heq.2
    rw [List.cons.injEq] at hinner
    obtain ⟨hseconds, hend⟩ := hreadSecond hotherSecond
      (elsesBound_of_mem hbound (by decide) (by simp)) hrest hotherRest hinner.2
    exact ⟨by simp [form_node, form_eq_of_leafText_eq hcondition hotherCondition heq.1, hfirsts,
      hseconds], hend⟩
  | _ => cases hkind

theorem reads_switch {value : Tree} (hvalue : IsNameLeaf value)
    (hstatement : IsNamedStatement statement) (hread : StatementReads statement) :
    StatementReads (.node .switch label span [value, statement]) := by
  intro other rest otherRest hother hbound hrest hotherRest heq
  have hkind := kind_eq_of_append (.switch hvalue hstatement) hother heq
  cases hother with
  | switch hotherValue hotherStatement =>
    simp only [statementWords, List.cons_append, List.cons.injEq, true_and] at heq
    obtain ⟨hforms, hend⟩ := hread hotherStatement
      (elsesBound_of_mem hbound (by decide) (by simp)) hrest hotherRest heq.2
    exact ⟨by simp [form_node, form_eq_of_leafText_eq hvalue hotherValue heq.1, hforms], hend⟩
  | _ => cases hkind

theorem reads_whileLoop {condition : Tree} (hcondition : IsNameLeaf condition)
    (hstatement : IsNamedStatement statement) (hread : StatementReads statement) :
    StatementReads (.node .whileLoop label span [condition, statement]) := by
  intro other rest otherRest hother hbound hrest hotherRest heq
  have hkind := kind_eq_of_append (.whileLoop hcondition hstatement) hother heq
  cases hother with
  | whileLoop hotherCondition hotherStatement =>
    simp only [statementWords, List.cons_append, List.cons.injEq, true_and] at heq
    obtain ⟨hforms, hend⟩ := hread hotherStatement
      (elsesBound_of_mem hbound (by decide) (by simp)) hrest hotherRest heq.2
    exact ⟨by simp [form_node, form_eq_of_leafText_eq hcondition hotherCondition heq.1, hforms],
      hend⟩
  | _ => cases hkind

theorem reads_doLoop {condition : Tree} (hstatement : IsNamedStatement statement)
    (hcondition : IsNameLeaf condition) (hread : StatementReads statement) :
    StatementReads (.node .doLoop label span [statement, condition]) := by
  intro other rest otherRest hother hbound hrest hotherRest heq
  have hkind := kind_eq_of_append (.doLoop hstatement hcondition) hother heq
  cases hother with
  | doLoop hotherStatement hotherCondition =>
    simp only [statementWords, List.cons_append, List.append_assoc, List.nil_append,
      List.cons.injEq, true_and] at heq
    obtain ⟨hforms, hinner⟩ := hread hotherStatement
      (elsesBound_of_mem hbound (by decide) (by simp)) (closes_of_ne (by decide))
      (closes_of_ne (by decide)) heq
    simp only [List.cons.injEq, true_and, List.append_cancel_right_eq] at hinner
    exact ⟨by simp [form_node, form_eq_of_leafText_eq hcondition hotherCondition hinner.1,
      hforms], hinner.2⟩
  | _ => cases hkind

theorem reads_forLoop {firstLabel secondLabel thirdLabel : Option String}
    {firstSpan secondSpan thirdSpan : Option Span} {first? second? third? : Option Tree}
    (hfirst : ∀ first ∈ first?, IsNameLeaf first)
    (hsecond : ∀ second ∈ second?, IsNameLeaf second)
    (hthird : ∀ third ∈ third?, IsNameLeaf third) (hstatement : IsNamedStatement statement)
    (hread : StatementReads statement) :
    StatementReads (.node .forLoop label span
      [.node (.forClause .initialization) firstLabel firstSpan first?.toList,
        .node (.forClause .condition) secondLabel secondSpan second?.toList,
        .node (.forClause .iteration) thirdLabel thirdSpan third?.toList, statement]) := by
  intro other rest otherRest hother hbound hrest hotherRest heq
  have hkind := kind_eq_of_append (.forLoop hfirst hsecond hthird hstatement) hother heq
  cases hother with
  | forLoop hotherFirst hotherSecond hotherThird hotherStatement =>
    simp only [statementWords, Tree.children, List.cons_append, List.append_assoc,
      List.cons.injEq, true_and, List.append_cancel_right_eq] at heq
    obtain ⟨hfirsts, hseconds, hinner⟩ := heq
    obtain ⟨hthirds, hinner⟩ := lastClause_append_inj hthird hotherThird hinner
    obtain ⟨hforms, hend⟩ := hread hotherStatement
      (elsesBound_of_mem hbound (by decide) (by simp)) hrest hotherRest hinner
    refine ⟨?_, hend⟩
    simp only [form_node, List.map_cons, List.map_nil, hforms, hthirds, reduceCtorEq,
      map_form_eq_of_flatMap_eq hfirst hotherFirst hfirsts,
      map_form_eq_of_flatMap_eq hsecond hotherSecond hseconds, ne_eq, not_false_eq_true]
  | _ => cases hkind

theorem reads_gotoJump {leading? : Option Tree} {target : Tree} (htarget : IsNameLeaf target) :
    StatementReads (.node .gotoJump label span (leading?.toList ++ [target])) := by
  intro other rest otherRest hother hbound hrest hotherRest heq
  have hkind := kind_eq_of_append (.gotoJump htarget) hother heq
  cases hother with
  | gotoJump hotherTarget =>
    simp only [statementWords, List.getLast?_concat, Option.toList_some, List.flatMap_cons,
      List.flatMap_nil, List.append_nil, List.cons_append, List.nil_append, List.cons.injEq,
      true_and, List.append_cancel_right_eq] at heq
    refine ⟨?_, heq.2⟩
    rw [form_gotoJump, form_gotoJump, form_eq_of_leafText_eq htarget hotherTarget heq.1]
  | _ => cases hkind

theorem reads_continueJump : StatementReads (.node .continueJump label span []) := by
  intro other rest otherRest hother hbound hrest hotherRest heq
  have hkind := kind_eq_of_append .continueJump hother heq
  cases hother with
  | continueJump =>
    exact ⟨rfl, by simpa using heq⟩
  | _ => cases hkind

theorem reads_breakJump : StatementReads (.node .breakJump label span []) := by
  intro other rest otherRest hother hbound hrest hotherRest heq
  have hkind := kind_eq_of_append .breakJump hother heq
  cases hother with
  | breakJump =>
    exact ⟨rfl, by simpa using heq⟩
  | _ => cases hkind

theorem reads_returnJump {expression? : Option Tree}
    (hexpression : ∀ expression ∈ expression?, IsNameLeaf expression) :
    StatementReads (.node .returnJump label span expression?.toList) := by
  intro other rest otherRest hother hbound hrest hotherRest heq
  have hkind := kind_eq_of_append (.returnJump hexpression) hother heq
  cases hother with
  | returnJump hotherExpression =>
    simp only [statementWords, List.cons_append, List.nil_append, List.cons.injEq, true_and,
      List.append_cancel_right_eq] at heq
    refine ⟨?_, heq.2⟩
    rw [form_node (by decide) (by decide), form_node (by decide) (by decide),
      map_form_eq_of_flatMap_eq hexpression hotherExpression heq.1]
  | _ => cases hkind

/-- Every statement in which each `else` is bound can be told from every other such. -/
theorem reads_of_isNamedStatement {tree : Tree} (htree : IsNamedStatement tree)
    (hbound : elsesBound tree = true) : StatementReads tree := by
  induction htree with
  | simple hexpression => exact reads_simple hexpression
  | compound hstatements ih =>
    exact reads_compound hstatements fun statement hmem =>
      ih statement hmem (elsesBound_of_mem hbound (by decide) hmem)
  | labeled htarget hstatement ih =>
    exact reads_labeled htarget hstatement (ih (elsesBound_of_mem hbound (by decide) (by simp)))
  | caseLabel hvalue hstatement ih =>
    exact reads_caseLabel hvalue hstatement (ih (elsesBound_of_mem hbound (by decide) (by simp)))
  | defaultLabel hstatement ih =>
    exact reads_defaultLabel hstatement (ih (elsesBound_of_mem hbound (by decide) (by simp)))
  | atomic hstatement ih =>
    exact reads_atomic hstatement (ih (elsesBound_of_mem hbound (by decide) (by simp)))
  | ifThen hcondition hfirst ih =>
    exact reads_ifThen hcondition hfirst (ih (elsesBound_of_mem hbound (by decide) (by simp)))
  | ifElse hcondition hfirst hsecond ihfirst ihsecond =>
    exact reads_ifElse hcondition hfirst hsecond hbound
      (ihfirst (elsesBound_of_mem hbound (by decide) (by simp)))
      (ihsecond (elsesBound_of_mem hbound (by decide) (by simp)))
  | switch hvalue hstatement ih =>
    exact reads_switch hvalue hstatement (ih (elsesBound_of_mem hbound (by decide) (by simp)))
  | whileLoop hcondition hstatement ih =>
    exact reads_whileLoop hcondition hstatement
      (ih (elsesBound_of_mem hbound (by decide) (by simp)))
  | doLoop hstatement hcondition ih =>
    exact reads_doLoop hstatement hcondition (ih (elsesBound_of_mem hbound (by decide) (by simp)))
  | forLoop hfirst hsecond hthird hstatement ih =>
    exact reads_forLoop hfirst hsecond hthird hstatement
      (ih (elsesBound_of_mem hbound (by decide) (by simp)))
  | gotoJump htarget => exact reads_gotoJump htarget
  | continueJump => exact reads_continueJump
  | breakJump => exact reads_breakJump
  | returnJump hexpression => exact reads_returnJump hexpression

end Statements

section Results

variable {tree other : Tree}

theorem leafText_form (htree : IsNameLeaf tree) : leafText (form tree) = leafText tree := by
  obtain ⟨name, span, -, rfl⟩ := htree
  rfl

theorem map_leafText_form {leaf? : Option Tree} (hleaf : ∀ leaf ∈ leaf?, IsNameLeaf leaf) :
    (leaf?.toList.map form).map leafText = leaf?.toList.map leafText := by
  rw [List.map_map]
  exact List.map_congr_left fun leaf hmem => leafText_form (hleaf leaf (by simpa using hmem))

theorem flatMap_leafText_form {leaf? : Option Tree} (hleaf : ∀ leaf ∈ leaf?, IsNameLeaf leaf) :
    (leaf?.toList.map form).flatMap leafText = leaf?.toList.flatMap leafText := by
  rw [List.flatMap_def, map_leafText_form hleaf, List.flatMap_def]

/-- The words of a statement are those of its form. -/
theorem statementWords_form (htree : IsNamedStatement tree) :
    statementWords (form tree) = statementWords tree := by
  induction htree with
  | simple hexpression | returnJump hexpression =>
    rw [form_node (by decide) (by decide), statementWords, statementWords,
      flatMap_leafText_form hexpression]
  | compound _ ih =>
    rw [form_node (by decide) (by decide), statementWords, statementWords,
      statementsWords_eq_flatMap, statementsWords_eq_flatMap, List.flatMap_map]
    rw [List.flatMap_def, List.flatMap_def, List.map_congr_left ih]
  | labeled hleaf _ ih | caseLabel hleaf _ ih | ifThen hleaf _ ih | switch hleaf _ ih
  | whileLoop hleaf _ ih | doLoop _ hleaf ih =>
    rw [form_node (by decide) (by decide)]
    simp only [List.map_cons, List.map_nil, statementWords, leafText_form hleaf, ih]
  | defaultLabel _ ih | atomic _ ih =>
    rw [form_node (by decide) (by decide)]
    simp only [List.map_cons, List.map_nil, statementWords, ih]
  | ifElse hleaf _ _ ihfirst ihsecond =>
    rw [form_node (by decide) (by decide)]
    simp only [List.map_cons, List.map_nil, statementWords, leafText_form hleaf, ihfirst, ihsecond]
  | forLoop hfirst hsecond hthird _ ih =>
    rw [form_node (by decide) (by decide)]
    simp only [List.map_cons, List.map_nil, statementWords, form_node, Tree.children, ne_eq,
      reduceCtorEq, not_false_eq_true, flatMap_leafText_form hfirst,
      flatMap_leafText_form hsecond, map_leafText_form hthird, ih]
  | gotoJump htarget =>
    rw [form_gotoJump]
    simp [leafText_form htarget]
  | continueJump => rfl
  | breakJump => rfl

theorem statementWords_eq_iff (htree : IsNamedStatement tree) (hother : IsNamedStatement other)
    (hbound : elsesBound tree = true) (hotherBound : elsesBound other = true) :
    statementWords tree = statementWords other ↔ form tree = form other := by
  constructor
  · intro hwords
    have hreads := reads_of_isNamedStatement htree hbound hother hotherBound (fun _ => by simp)
      (fun _ => by simp) (congrArg (· ++ []) hwords)
    exact hreads.1
  · intro hforms
    rw [← statementWords_form htree, hforms, statementWords_form hother]

/-- The words of a whole rendered statement. -/
theorem exists_words_renderText (htree : IsNamedStatement tree) :
    ∃ text, renderText tree = .ok text ∧ words text.toList = statementWords tree := by
  refine ⟨_, (renders_of_isNamedStatement htree .initial).renderText_eq, ?_⟩
  rw [String.toList_ofList]
  have hwords :=
    (splits_textIn htree .initial).append (.blank (by decide : isBlank '\n' = true) .nil)
  simpa using hwords.words_eq

/-- Statements in which each `else` is bound are rendered, and their texts are the same up
to white space exactly when they are structurally equal up to what is never written. -/
theorem rendered_statements_keep_structure (htree : IsNamedStatement tree)
    (hother : IsNamedStatement other) (hbound : elsesBound tree = true)
    (hotherBound : elsesBound other = true) :
    ∃ text otherText, renderText tree = .ok text ∧ renderText other = .ok otherText ∧
      (squeezed text.toList = squeezed otherText.toList ↔
        (withoutUnwritten tree).same (withoutUnwritten other) = true) := by
  obtain ⟨text, htext, hwords⟩ := exists_words_renderText htree
  obtain ⟨otherText, hotherText, hotherWords⟩ := exists_words_renderText hother
  refine ⟨text, otherText, htext, hotherText, ?_⟩
  calc squeezed text.toList = squeezed otherText.toList
      ↔ statementWords tree = statementWords other := by
        rw [squeezed_eq_iff, hwords, hotherWords]
    _ ↔ form tree = form other := statementWords_eq_iff htree hother hbound hotherBound
    _ ↔ (withoutUnwritten tree).same (withoutUnwritten other) = true :=
        (Tree.same_eq_true_iff _ _).symm

theorem isNameLeaf_identifier {name : String} (hname : IsName name) :
    IsNameLeaf (.identifier name) :=
  ⟨name, none, hname, rfl⟩

/-- An `else` inside the first branch and one after a block around it. -/
theorem rendered_statements_keep_structure_block :
    ∃ text otherText,
      renderText (.node .ifElse none none [.identifier "c", .node .ifElse none none
        [.identifier "d", .node .breakJump none none [], .node .continueJump none none []]]) =
          .ok text ∧
      renderText (.node .ifElse none none [.identifier "c", .node .compound none none
        [.node .ifElse none none [.identifier "d", .node .breakJump none none []]],
        .node .continueJump none none []]) = .ok otherText ∧
      squeezed text.toList ≠ squeezed otherText.toList := by
  have hc : IsNameLeaf (.identifier "c") := isNameLeaf_identifier (by decide)
  have hd : IsNameLeaf (.identifier "d") := isNameLeaf_identifier (by decide)
  obtain ⟨text, otherText, htext, hotherText, hiff⟩ := rendered_statements_keep_structure
    (.ifThen hc (.ifElse hd .breakJump .continueJump))
    (.ifElse hc (.compound (List.forall_mem_singleton.2 (.ifThen hd .breakJump))) .continueJump)
    rfl rfl
  refine ⟨text, otherText, htext, hotherText, ?_⟩
  rw [Ne, hiff]
  decide

/-- Whether statements that differ in structure are rendered alike up to white space. -/
def RenderedAlike (tree other : Tree) : Prop :=
  IsNamedStatement tree ∧ IsNamedStatement other ∧ tree.same other = false ∧
    ∃ text otherText, renderText tree = .ok text ∧ renderText other = .ok otherText ∧
      squeezed text.toList = squeezed otherText.toList

theorem renderedAlike_of_statementWords (htree : IsNamedStatement tree)
    (hother : IsNamedStatement other) (hsame : tree.same other = false)
    (hwords : statementWords tree = statementWords other) : RenderedAlike tree other := by
  obtain ⟨text, htext, htextWords⟩ := exists_words_renderText htree
  obtain ⟨otherText, hotherText, hotherWords⟩ := exists_words_renderText hother
  refine ⟨htree, hother, hsame, text, otherText, htext, hotherText, ?_⟩
  rw [squeezed_eq_iff, htextWords, hotherWords, hwords]

/-- An `else` after an `if` that has none is taken for its own, and neither what stands in
front of the label of a jump nor a text of the jump itself is written. -/
theorem dangling_else_and_lead_lose_structure :
    RenderedAlike
      (.node .ifElse none none [.identifier "c", .node .ifElse none none
        [.identifier "d", .node .breakJump none none []], .node .continueJump none none []])
      (.node .ifElse none none [.identifier "c", .node .ifElse none none
        [.identifier "d", .node .breakJump none none [], .node .continueJump none none []]]) ∧
    RenderedAlike (.node .gotoJump none none [.identifier "a", .identifier "l"])
      (.node .gotoJump none none [.identifier "l"]) ∧
    RenderedAlike (.node .breakJump (some "x") none []) (.node .breakJump none none []) := by
  have hc : IsNameLeaf (.identifier "c") := isNameLeaf_identifier (by decide)
  have hd : IsNameLeaf (.identifier "d") := isNameLeaf_identifier (by decide)
  have hl : IsNameLeaf (.identifier "l") := isNameLeaf_identifier (by decide)
  refine ⟨?_, ?_, ?_⟩
  · exact renderedAlike_of_statementWords (.ifElse hc (.ifThen hd .breakJump) .continueJump)
      (.ifThen hc (.ifElse hd .breakJump .continueJump)) rfl rfl
  · exact renderedAlike_of_statementWords
      (@IsStatement.gotoJump _ _ none none (some (.identifier "a")) _ hl)
      (@IsStatement.gotoJump _ _ none none none _ hl) rfl rfl
  · exact renderedAlike_of_statementWords .breakJump .breakJump rfl rfl

end Results

end NescTree.Render
