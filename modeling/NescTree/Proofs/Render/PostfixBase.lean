import NescTree.Proofs.Render.Bracketing
import NescTree.Proofs.Render.OperatorParentheses

/-!
# The base of a postfix chain

In a postfix chain the base is written first and the parts after it directly behind.  Read
as C, a part belongs to the whole base only if the base is a primary expression: a single
leaf, or a text in parentheses.  Operators and dereferences bring their parentheses along.
A prefix operator, a cast and the size of an expression do not, so what follows them belongs
to a part of the base.
-/

namespace NescTree.Render

open Text

instance : DecidablePred IsBracketFree := fun text? =>
  decidable_of_iff (text?.all fun text => text.toList.all (!isBracket ·)) (by
    simp [IsBracketFree, Option.all_eq_true])

def isAtom : Kind → Bool
  | .identifier | .constant | .stringLiteral => true
  | _ => false

/-- Prefix operators, casts and sizes, which are written before their operand and have no
parentheses around the whole. -/
def leadsOperand : Kind → Bool
  | .unary _ | .cast | .sizeofExpression => true
  | _ => false

def isBase (kind : Kind) : Bool :=
  isAtom kind || isOperator kind || kind = .dereference || leadsOperand kind

/-- Whether the text of an expression is primary: the text of a single leaf, or a text in
parentheses that belong together. -/
def IsPrimary (node : Tree) (text : List Char) : Prop :=
  (isAtom node.kind = true ∧ node.text.map String.toList = some text) ∨
    ∃ inner, WellNested inner ∧ text = '(' :: (inner ++ [')'])

section Writing

variable {doc : Doc} {docs : List Doc} {state : State}

theorem text_cons_of_ok (hfault : ((Doc.seq (doc :: docs)).run state).fault? = none) :
    (doc.run state).fault? = none ∧
      ((Doc.seq docs).run (doc.run state).state).fault? = none ∧
      ((Doc.seq (doc :: docs)).run state).text.toList =
        (doc.run state).text.toList ++
          ((Doc.seq docs).run (doc.run state).state).text.toList := by
  obtain ⟨hdoc, hdocs, htext⟩ := text_append_of_ok hfault
  exact ⟨hdoc, hdocs, by rw [Doc.seq, htext, String.toList_append]⟩

/-- What follows a literal text. -/
theorem text_literal_of_ok {text : String}
    (hfault : ((Doc.seq (.write (some text) :: docs)).run state).fault? = none) :
    ((Doc.seq docs).run state).fault? = none ∧
      ((Doc.seq (.write (some text) :: docs)).run state).text.toList =
        text.toList ++ ((Doc.seq docs).run state).text.toList := by
  obtain ⟨-, hrest, htext⟩ := text_cons_of_ok hfault
  exact ⟨hrest, htext⟩

/-- The literal text at the end of a program. -/
theorem text_final_literal (text : String) :
    ((Doc.seq [.write (some text)]).run state).text.toList = text.toList := by
  simp [Doc.seq, Doc.run, Written.andThen, Written.ofText]

/-- An expression that has no parentheses of its own is written the same in any case. -/
theorem text_parentheses_of_ok {enabled : Bool} {body : Doc}
    (hfault : ((Doc.within (.parentheses enabled) body).run state).fault? = none) :
    (body.run { state with bare := !enabled }).fault? = none ∧
      ((Doc.within (.parentheses enabled) body).run state).text.toList =
        (body.run { state with bare := !enabled }).text.toList := by
  obtain ⟨entered, henter, hbody, htext⟩ := text_within_of_ok hfault
  cases henter
  refine ⟨hbody, ?_⟩
  rw [htext]
  simp [Undo.closing]

end Writing

section Bases

variable {label : Option String} {span : Option Span} {children : List Tree} {state : State}

theorem wellNested_textIn {tree : Tree} (htexts : ∀ node ∈ tree.walk, IsBracketFree node.text)
    (hfault : (renderPart tree state).fault? = none) : WellNested (textIn state tree) := by
  obtain ⟨stack, hscan, hstack⟩ := isBalanced_treeDoc htexts [] state
  obtain rfl := hstack hfault
  exact (wellNested_iff_scan _).2 hscan

/-- What some children write one after the other is well nested. -/
theorem wellNested_allFrom {tree : Tree} (htexts : ∀ node ∈ tree.walk, IsBracketFree node.text)
    (start : Nat) (hfault : (((view tree).allFrom start).run state).fault? = none) :
    WellNested (((view tree).allFrom start).run state).text.toList := by
  have hwalk : ∀ child ∈ tree.children, ∀ node ∈ child.walk, IsBracketFree node.text :=
    fun child hchild node hnode => htexts node (Tree.mem_walk_of_child hchild hnode)
  have hcomposed : Composed tree [] _ [] [] ((view tree).allFrom start) := .allFrom start
  obtain ⟨stack, hscan, hstack⟩ := hcomposed.takes (htexts tree tree.mem_walk_self)
    (fun child hchild => hwalk child hchild child child.mem_walk_self)
    (fun child hchild => isBalanced_treeDoc (hwalk child hchild))
    (fun child hchild below hbelow => isBalanced_treeDoc fun node hnode =>
      hwalk child hchild node (Tree.mem_walk_of_child hbelow hnode)) state
  obtain rfl := hstack hfault
  exact (wellNested_iff_scan _).2 hscan

/-- A text that does not start with a parenthesis is primary only if it is that of a leaf. -/
theorem not_isPrimary_of_head {node : Tree} {char : Char} {rest : List Char}
    (hkind : isAtom node.kind = false) (hchar : char ≠ '(') :
    ¬ IsPrimary node (char :: rest) := by
  rintro (⟨hatom, -⟩ | ⟨inner, -, htext⟩)
  · rw [hkind] at hatom
    cases hatom
  · exact hchar (List.cons.inj htext).1

theorem isPrimary_atom {node : Tree} (hkind : isAtom node.kind = true)
    (hfault : (renderPart node state).fault? = none) : IsPrimary node (textIn state node) := by
  have hrun : renderPart node state = (Doc.write node.text).run state := by
    obtain ⟨kind, label, span, children⟩ := node
    cases kind with
    | identifier | constant | stringLiteral => rfl
    | _ => cases hkind
  rw [hrun] at hfault
  refine .inl ⟨hkind, ?_⟩
  rw [textIn, hrun]
  cases htext : node.text with
  | none =>
    rw [htext] at hfault
    cases hfault
  | some text => rfl

/-- An operator in a chain has parentheses of its own. -/
theorem isPrimary_operator {node : Tree} (hoperator : isOperator node.kind = true)
    (htexts : ∀ inner ∈ node.walk, IsBracketFree inner.text) (hbare : state.bare = false)
    (hfault : (renderPart node state).fault? = none) : IsPrimary node (textIn state node) := by
  obtain ⟨inside, htext⟩ := exists_inside_of_isOperator hoperator hfault
  have hinside : WellNested inside := by
    have hnested := wellNested_textIn htexts (htext true).1
    rwa [(htext true).2] at hnested
  refine .inr ⟨' ' :: (inside ++ [' ']), .plain rfl (hinside.append (.plain rfl .nil)), ?_⟩
  have hstate : textIn state node = enclosed state.bare inside := (htext state.bare).2
  rw [hstate, hbare]
  simp

/-- The operand of a dereference stands in the parentheses of the dereference. -/
theorem isPrimary_dereference
    (htexts : ∀ node ∈ (Tree.node .dereference label span children).walk, IsBracketFree node.text)
    (hfault : (renderPart (.node .dereference label span children) state).fault? = none) :
    IsPrimary (.node .dereference label span children)
      (textIn state (.node .dereference label span children)) := by
  obtain ⟨hrest, hstart⟩ := text_literal_of_ok hfault
  obtain ⟨hoperand, -, hmiddle⟩ := text_cons_of_ok hrest
  cases hchild : (Tree.node .dereference label span children).children[0]? with
  | none =>
    rw [withChild_of_none hchild] at hoperand
    cases hoperand
  | some inner =>
    rw [withChild_of_some hchild] at hoperand hmiddle hstart
    obtain ⟨hok, hwritten⟩ := text_parentheses_of_ok hoperand
    have hinner : WellNested (textIn { state with bare := false } inner) := by
      refine wellNested_textIn (fun node hnode => ?_) hok
      exact htexts node (Tree.mem_walk_of_child (List.mem_of_getElem? hchild) hnode)
    refine .inr ⟨' ' :: '*' :: (textIn { state with bare := false } inner ++ [' ']),
      .plain rfl (.plain rfl (hinner.append (.plain rfl .nil))), ?_⟩
    calc textIn state (.node .dereference label span children)
        = "( *".toList ++ (((operand ((view inner).toPart 0)).run state).text.toList ++
            " )".toList) := by
          rw [← text_final_literal " )", ← hmiddle, ← hstart, ← withChild_of_some hchild operand]
          rfl
      _ = '(' :: (' ' :: '*' :: (textIn { state with bare := false } inner ++ [' ']) ++ [')']) := by
          rw [operand, hwritten]
          simp
          rfl

/-- A text whose first parenthesis is closed before its end is not primary. -/
theorem not_isPrimary_of_closed {node : Tree} (hkind : isAtom node.kind = false)
    {outer rest : List Char} (houter : WellNested outer) (hrest : rest ≠ []) :
    ¬ IsPrimary node ('(' :: (outer ++ ')' :: rest)) := by
  rintro (⟨hatom, -⟩ | ⟨inner, hinner, htext⟩)
  · rw [hkind] at hatom
    cases hatom
  · have hparts : inner = outer ++ ')' :: rest.dropLast := by
      have hdrop := congrArg List.dropLast (List.cons.inj htext).2
      rw [List.dropLast_concat, List.dropLast_append_of_ne_nil (List.cons_ne_nil ')' rest),
        List.dropLast_cons_of_ne_nil hrest] at hdrop
      exact hdrop.symm
    have hscan := hinner.scan_eq []
    rw [hparts, scan_append, houter.scan_eq] at hscan
    cases hscan

theorem not_isPrimary_unary {operator : UnaryOperator}
    (hfault : (renderPart (.node (.unary operator) label span children) state).fault? = none) :
    ¬ IsPrimary (.node (.unary operator) label span children)
      (textIn state (.node (.unary operator) label span children)) := by
  obtain ⟨-, hstart⟩ := text_literal_of_ok hfault
  have htext : textIn state (.node (.unary operator) label span children) = _ := hstart
  rw [htext]
  cases operator <;> exact not_isPrimary_of_head rfl (by decide)

theorem not_isPrimary_sizeofExpression
    (hfault : (renderPart (.node .sizeofExpression label span children) state).fault? = none) :
    ¬ IsPrimary (.node .sizeofExpression label span children)
      (textIn state (.node .sizeofExpression label span children)) := by
  obtain ⟨-, hstart⟩ := text_literal_of_ok hfault
  have htext : textIn state (.node .sizeofExpression label span children) = _ := hstart
  rw [htext]
  exact not_isPrimary_of_head rfl (by decide)

/-- The first parenthesis of a cast is closed after the type. -/
theorem not_isPrimary_cast
    (htexts : ∀ node ∈ (Tree.node .cast label span children).walk, IsBracketFree node.text)
    (hfault : (renderPart (.node .cast label span children) state).fault? = none) :
    ¬ IsPrimary (.node .cast label span children)
      (textIn state (.node .cast label span children)) := by
  obtain ⟨hrest, hstart⟩ := text_literal_of_ok hfault
  obtain ⟨htype, hmore, hmiddle⟩ := text_cons_of_ok hrest
  obtain ⟨-, hclosed⟩ := text_literal_of_ok hmore
  have hnested := wellNested_allFrom htexts 1 htype
  have htext : textIn state (.node .cast label span children) = _ :=
    hstart.trans (congrArg (_ ++ ·) (hmiddle.trans (congrArg (_ ++ ·) hclosed)))
  rw [htext]
  exact not_isPrimary_of_closed rfl hnested (by simp)

end Bases

section Chains

variable {label : Option String} {span : Option Span} {base : Tree} {followers : List Tree}
  {state : State}

/-- A chain is rendered with its base at the start, and the base with parentheses. -/
theorem exists_rest_of_chain
    (hfault : (renderPart (.node .postfixChain label span (base :: followers)) state).fault? =
      none) :
    (renderPart base { state with bare := false }).fault? = none ∧
      ∃ rest, textIn state (.node .postfixChain label span (base :: followers)) =
        textIn { state with bare := false } base ++ rest := by
  obtain ⟨hparts, htext⟩ := text_parentheses_of_ok hfault
  obtain ⟨hbase, -, hwritten⟩ := text_cons_of_ok hparts
  exact ⟨hbase, _, htext.trans hwritten⟩

/-- A prefix operator at the base of a chain is written as one in front of the chain. -/
theorem textIn_chain_unary {operator : UnaryOperator} {inner : Tree} {innerLabel : Option String}
    {innerSpan : Option Span} (hinner : Renders inner)
    (hfollowers : ∀ follower ∈ followers, Renders follower) (state : State) :
    textIn state
        (.node .postfixChain label span
          (.node (.unary operator) innerLabel innerSpan [inner] :: followers)) =
      textIn state
        (.node (.unary operator) innerLabel innerSpan
          [.node .postfixChain label span (inner :: followers)]) := by
  have hunary : Renders (.node (.unary operator) innerLabel innerSpan [inner]) :=
    renders_of_writes fun _ => writes_unary (hinner _)
  have hover : ∀ first, Renders first → ∀ start : State,
      (treeDoc (.node .postfixChain label span (first :: followers))).Writes start
        ((first :: followers).flatMap (textIn { start with bare := false })) :=
    fun first hfirst _ => writes_chain (List.forall_mem_cons.2
      ⟨hfirst _, fun follower hmem => hfollowers follower hmem _⟩)
  calc textIn state (.node .postfixChain label span
          (.node (.unary operator) innerLabel innerSpan [inner] :: followers))
      = textIn { state with bare := false } (.node (.unary operator) innerLabel innerSpan [inner])
          ++ followers.flatMap (textIn { state with bare := false }) :=
        (hover _ hunary state).textIn_eq
    _ = operator.symbol.toList ++ (inner :: followers).flatMap
          (textIn { state with bare := false }) := by
        rw [(writes_unary (hinner _)).textIn_eq, List.flatMap_cons, List.append_assoc]
    _ = _ := (writes_unary (hover inner hinner _)).textIn_eq.symm

/-- The base of a chain stands at the start of its text.  The text of the base is primary,
so that what follows belongs to the whole base, exactly if the base is a leaf, an operator or
a dereference, and not a prefix operator, a cast or the size of an expression. -/
theorem postfix_base_primary_iff (hbase : isBase base.kind = true)
    (htexts : ∀ node ∈ base.walk, IsBracketFree node.text)
    (hfault : (renderPart (.node .postfixChain label span (base :: followers)) state).fault? =
      none) :
    ∃ rest, textIn state (.node .postfixChain label span (base :: followers)) =
        textIn { state with bare := false } base ++ rest ∧
      (IsPrimary base (textIn { state with bare := false } base) ↔
        leadsOperand base.kind = false) := by
  obtain ⟨hok, rest, htext⟩ := exists_rest_of_chain hfault
  refine ⟨rest, htext, ?_⟩
  obtain ⟨kind, baseLabel, baseSpan, children⟩ := base
  cases kind with
  | identifier | constant | stringLiteral => exact iff_of_true (isPrimary_atom rfl hok) rfl
  | binary _ | conditional => exact iff_of_true (isPrimary_operator rfl htexts rfl hok) rfl
  | dereference => exact iff_of_true (isPrimary_dereference htexts hok) rfl
  | unary _ => exact iff_of_false (not_isPrimary_unary hok) (by simp [leadsOperand])
  | cast => exact iff_of_false (not_isPrimary_cast htexts hok) (by simp [leadsOperand])
  | sizeofExpression =>
    exact iff_of_false (not_isPrimary_sizeofExpression hok) (by simp [leadsOperand])
  | _ => cases hbase

/-- In `( a + b )->x` the member is that of the sum. -/
theorem postfix_base_primary_iff_sum :
    let sum : Tree := .node (.binary .plus) none none [.identifier "a", .identifier "b"]
    let chain : Tree := .node .postfixChain none none
      [sum, .node .arrow none none [.identifier "x"]]
    (renderPart chain .initial).result = .ok "( a + b )->x" ∧
      IsPrimary sum (textIn .initial sum) := by
  intro sum chain
  have htexts : ∀ node ∈ sum.walk, IsBracketFree node.text := by decide +kernel
  have hfault : (renderPart chain .initial).fault? = none := rfl
  obtain ⟨rest, -, hiff⟩ := postfix_base_primary_iff rfl htexts hfault
  exact ⟨rfl, hiff.2 rfl⟩

/-- In `-p->x` the member is that of `p`, also where it is meant to be that of `-p`. -/
theorem prefix_base_not_primary :
    let negated : Tree := .node (.unary .unaryMinus) none none [.identifier "p"]
    let member : Tree := .node .arrow none none [.identifier "x"]
    let chain : Tree := .node .postfixChain none none [negated, member]
    let other : Tree := .node (.unary .unaryMinus) none none
      [.node .postfixChain none none [.identifier "p", member]]
    (renderPart chain .initial).result = .ok "-p->x" ∧
      ¬ IsPrimary negated (textIn .initial negated) ∧
      textIn .initial chain = textIn .initial other ∧ chain.same other = false := by
  intro negated member chain other
  have hname : ∀ name, Renders (.identifier name) :=
    fun name => renders_of_writes fun _ => writes_leaf name (.inl rfl)
  have hmember : Renders member :=
    renders_of_writes fun _ => writes_selector (.inr rfl) rfl (hname "x" _)
  refine ⟨rfl, not_isPrimary_unary rfl, ?_, by decide⟩
  exact textIn_chain_unary (hname "p") (by simpa using hmember) .initial

end Chains

end NescTree.Render
