import NescTree.Proofs.Render.Edge
import NescTree.Proofs.Render.LineStarts

/-!
# The lines of statements

A statement is rendered as whole lines.  Each line is indented by the level of the
construct that writes it, which is the number of edges above the construct that lead into
a block or to a controlled statement that is no block.  The lines of labels are indented
by one level less.
-/

namespace NescTree.Render

section Visible

/-- Whether a text can stand on a line after the indentation: it does not start with a
space, and the line does not end inside it. -/
def Visible (text : List Char) : Prop := text ≠ [] ∧ text.head? ≠ some ' ' ∧ '\n' ∉ text

instance (text : List Char) : Decidable (Visible text) := inferInstanceAs (Decidable (_ ∧ _ ∧ _))

variable {text other : List Char}

theorem Visible.lineFeed_notMem (htext : Visible text) : '\n' ∉ text := htext.2.2

theorem Visible.append (htext : Visible text) (hother : '\n' ∉ other) :
    Visible (text ++ other) := by
  obtain ⟨first, rest, rfl⟩ := List.exists_cons_of_ne_nil htext.1
  refine ⟨List.cons_ne_nil _ _, htext.2.1, ?_⟩
  rw [List.mem_append, not_or]
  exact ⟨htext.lineFeed_notMem, hother⟩

theorem visible_cons {first : Char} {rest : List Char} (hspace : first ≠ ' ')
    (hfirst : first ≠ '\n') (hrest : '\n' ∉ rest) : Visible (first :: rest) := by
  refine ⟨List.cons_ne_nil _ _, ?_, List.not_mem_cons_of_ne_of_not_mem hfirst.symm hrest⟩
  rwa [List.head?_cons, Ne, Option.some.injEq]

theorem Visible.enclosed (htext : Visible text) (bare : Bool) :
    Visible (enclosed bare text) := by
  cases bare with
  | true => exact htext
  | false =>
    apply visible_cons (by decide) (by decide)
    simp [htext.lineFeed_notMem]

theorem notMem_intercalate {texts : List (List Char)} {mark : Char} {separator : List Char}
    (hseparator : mark ∉ separator) (htexts : ∀ text ∈ texts, mark ∉ text) :
    mark ∉ separator.intercalate texts := by
  induction texts with
  | nil => simp
  | cons text texts ih =>
    obtain ⟨htext, hrest⟩ := List.forall_mem_cons.1 htexts
    cases texts with
    | nil => simpa using htext
    | cons next texts =>
      rw [List.intercalate_cons_cons]
      simp [htext, hseparator, ih hrest]

/-- Whether a node can stand on a line if it is a leaf. -/
def IsVisibleLeaf (node : Tree) : Prop :=
  match node.kind with
  | .identifier | .constant | .stringLiteral => ∃ text ∈ node.text, Visible text.toList
  | _ => True

/-- Whether a node can stand on a line if it is a leaf, and does not end the line if it is an
operator that is written with its text. -/
def IsVisibleNode (node : Tree) : Prop :=
  IsVisibleLeaf node ∧
    match node.kind with
    | .binary _ | .dot | .arrow | .plusPlus | .minusMinus => ∀ text ∈ node.text, '\n' ∉ text.toList
    | _ => True

theorem visible_of_leaf {kind : Kind} {text : String} {span : Option Span}
    (hkind : kind = .identifier ∨ kind = .constant ∨ kind = .stringLiteral)
    (hnode : IsVisibleLeaf (.node kind (some text) span [])) : Visible text.toList := by
  obtain rfl | rfl | rfl := hkind <;>
    simpa [IsVisibleLeaf, Tree.text, Kind.textOr] using hnode

theorem Visible.unary (htext : Visible text) (operator : UnaryOperator) :
    Visible (operator.symbol.toList ++ text) := by
  have hsymbol : Visible operator.symbol.toList := by
    cases operator <;> decide
  exact hsymbol.append htext.lineFeed_notMem

/-- What a text at a place in an expression does for the line it is on. -/
def Place.Keeps : Place → List Char → Prop
  | .operand, text => Visible text
  | .follower, text => '\n' ∉ text

/-- An expression stays on the line that it is on, and an operand can start the line. -/
theorem IsExpression.keeps {place : Place} {tree : Tree}
    (htree : IsExpression IsVisibleNode place tree) (state : State) :
    place.Keeps (textIn state tree) := by
  induction htree generalizing state with
  | leaf hkind hnode =>
    rw [(writes_leaf _ hkind).textIn_eq]
    exact visible_of_leaf hkind hnode.1
  | @binary operator label _ _ _ hleft hright hnode ihleft ihright =>
    obtain ⟨symbol, hlabel⟩ := @exists_textOr_eq (.binary operator) rfl label
    have hsymbol : '\n' ∉ symbol.toList := hnode.2 symbol hlabel
    rw [(writes_binary hlabel (hleft.renders _) (hright.renders _)).textIn_eq]
    apply Visible.enclosed
    apply (ihleft _).append
    simp [hsymbol, (ihright _).lineFeed_notMem]
  | conditional hcondition hfirst hsecond _ ihcondition ihfirst ihsecond =>
    rw [(writes_conditional (hcondition.renders _) (hfirst.renders _)
      (hsecond.renders _)).textIn_eq]
    apply Visible.enclosed
    apply (ihcondition _).append
    simp [(ihfirst _).lineFeed_notMem, (ihsecond _).lineFeed_notMem]
  | unary hinner _ ih =>
    rw [(writes_unary (hinner.renders _)).textIn_eq]
    exact (ih _).unary _
  | dereference hinner _ ih =>
    rw [(writes_dereference (hinner.renders _)).textIn_eq]
    apply visible_cons (by decide) (by decide)
    simp [(ih _).lineFeed_notMem]
  | chain hbase hfollowers _ ihbase ihfollowers =>
    rw [(writes_chain (List.forall_mem_cons.2 ⟨hbase.renders _,
      fun follower hmem => (hfollowers follower hmem).renders _⟩)).textIn_eq, List.flatMap_cons]
    apply (ihbase _).append
    rw [List.mem_flatMap]
    rintro ⟨follower, hmem, hline⟩
    exact ihfollowers follower hmem _ hline
  | arguments harguments _ ih =>
    rw [(writes_arguments fun argument hmem => (harguments argument hmem).renders _).textIn_eq]
    have hinner : '\n' ∉ [',', ' '].intercalate (List.map (textIn state) _) :=
      notMem_intercalate (by decide)
        (List.forall_mem_map.2 fun argument hmem => (ih argument hmem state).lineFeed_notMem)
    simp [Place.Keeps, hinner]
  | element hindex _ ih =>
    rw [(writes_element (hindex.renders _)).textIn_eq]
    simp [Place.Keeps, (ih _).lineFeed_notMem]
  | @selector _ label _ _ hkind hname hnode ih =>
    obtain ⟨symbol, hlabel⟩ := exists_textOr_eq (isSome_spelling?_of_selector hkind) label
    have hsymbol : '\n' ∉ symbol.toList := by
      obtain rfl | rfl := hkind <;> exact hnode.2 symbol hlabel
    rw [(writes_selector hkind hlabel (hname.renders _)).textIn_eq]
    simp [Place.Keeps, hsymbol, (ih _).lineFeed_notMem]
  | @count _ label _ hkind hnode =>
    obtain ⟨symbol, hlabel⟩ := exists_textOr_eq (isSome_spelling?_of_count hkind) label
    rw [(writes_count hkind hlabel).textIn_eq]
    obtain rfl | rfl := hkind <;> exact hnode.2 symbol hlabel

theorem IsExpression.visible {tree : Tree}
    (htree : IsExpression IsVisibleNode .operand tree) (state : State) :
    Visible (textIn state tree) :=
  htree.keeps state

end Visible

section Lines

/-- A line of a statement: the path to the construct that writes it, whether it is the line
of a label, and how it starts. -/
structure Line where
  path : List Nat
  isLabel : Bool
  opening : String
  deriving DecidableEq, Repr

namespace Line

def own (opening : String) : Line := ⟨[], false, opening⟩

def label (opening : String) : Line := ⟨[], true, opening⟩

def below (index : Nat) (line : Line) : Line := { line with path := index :: line.path }

end Line

mutual

@[simp] def statementLines : Tree → List Line
  | .node .compound _ _ children =>
    .own "\x7b" :: (blockLines 0 children ++ [.own "\x7d"])
  | .node .labeled _ _ [_, statement] => .label "" :: (statementLines statement).map (.below 1)
  | .node .caseLabel _ _ [_, statement] =>
    .label "case " :: (statementLines statement).map (.below 1)
  | .node .defaultLabel _ _ [statement] =>
    .label "default:" :: (statementLines statement).map (.below 0)
  | .node .atomic _ _ [statement] => .own "atomic" :: (statementLines statement).map (.below 0)
  | .node .ifElse _ _ [_, first] => .own "if( " :: (statementLines first).map (.below 1)
  | .node .ifElse _ _ [_, first, second] =>
    .own "if( " :: ((statementLines first).map (.below 1) ++
      .own "else" :: (statementLines second).map (.below 2))
  | .node .switch _ _ [_, statement] =>
    .own "switch( " :: (statementLines statement).map (.below 1)
  | .node .whileLoop _ _ [_, statement] =>
    .own "while( " :: (statementLines statement).map (.below 1)
  | .node .doLoop _ _ [statement, _] =>
    .own "do" :: ((statementLines statement).map (.below 0) ++ [.own "while( "])
  | .node .forLoop _ _ [_, _, _, statement] =>
    .own "for( " :: (statementLines statement).map (.below 3)
  | .node .gotoJump _ _ _ => [.own "goto "]
  | .node .continueJump _ _ _ => [.own "continue;"]
  | .node .breakJump _ _ _ => [.own "break;"]
  | .node .returnJump _ _ _ => [.own "return "]
  | _ => [.own ""]

/-- The lines of the statements in a block, counted from an index on. -/
def blockLines (index : Nat) : List Tree → List Line
  | [] => []
  | statement :: statements =>
    (statementLines statement).map (.below index) ++ blockLines (index + 1) statements

end

/-- Whether an edge adds a level.  In a statement, this is an edge that leads into a block,
or to a controlled statement that is no block. -/
def Edge.deepens (edge : Edge) : Bool := edge.levels = 1

/-- A written line: the level at which it is started, and the text after the indentation. -/
structure Row where
  level : Int
  text : List Char

def Row.chars (row : Row) : List Char := List.replicate (4 * row.level.toNat) ' ' ++ row.text

def rowsText (rows : List Row) : List Char := rows.flatMap (·.chars ++ ['\n'])

/-- A line as it is written for a tree that is rendered at a level: it is started at the level
of its construct, and its text starts as the line does. -/
def Line.IsWritten (tree : Tree) (level : Int) (line : Line) (row : Row) : Prop :=
  ∃ edges, edgesTo tree line.path = some edges ∧
    row.level = (level + edges.countP Edge.deepens - if line.isLabel then 1 else 0) ∧
      Visible row.text ∧ line.opening.toList <+: row.text

variable {tree : Tree} {level : Int} {state : State} {text : List Char}

theorem isWritten_own {opening : String} (htext : Visible text)
    (hopening : opening.toList <+: text) :
    (Line.own opening).IsWritten tree level ⟨level, text⟩ := by
  refine ⟨[], rfl, ?_, htext, hopening⟩
  simp [Line.own]

theorem isWritten_label {opening : String} (htext : Visible text)
    (hopening : opening.toList <+: text) :
    (Line.label opening).IsWritten tree level ⟨level + -1, text⟩ := by
  refine ⟨[], rfl, ?_, htext, hopening⟩
  simp [Line.label, Int.sub_eq_add_neg]

/-- A line of a child is a line of the tree, one edge farther down. -/
theorem Line.IsWritten.below {child : Tree} {index : Nat} {line : Line} {row : Row}
    (hchild : tree.children[index]? = some child)
    (hline : line.IsWritten child
      (level + if (Edge.mk tree index child).deepens then 1 else 0) row) :
    (line.below index).IsWritten tree level row := by
  obtain ⟨edges, hedges, hrow, htext⟩ := hline
  have hlevel : (level + if (Edge.mk tree index child).deepens then 1 else 0) +
      (edges.countP Edge.deepens : Int) =
        level + (((Edge.mk tree index child) :: edges).countP Edge.deepens : Int) := by
    rw [List.countP_cons]
    split <;> omega
  refine ⟨_, edgesTo_cons hchild hedges, ?_, htext⟩
  rw [hrow, hlevel]
  rfl

/-- No line is deeper than the construct that writes it. -/
theorem Line.IsWritten.level_le {line : Line} {row : Row} (hline : line.IsWritten tree level row) :
    row.level ≤ level + line.path.length := by
  obtain ⟨edges, hedges, hrow, -⟩ := hline
  have hcount : edges.countP Edge.deepens ≤ line.path.length :=
    length_edgesTo hedges ▸ List.countP_le_length
  rw [hrow]
  split <;> omega

/-- If no construct is too deep, the indentations of all lines fit. -/
theorem fitsLevel_of_isWritten {lines : List Line} {rows : List Row}
    (hrows : List.Forall₂ (Line.IsWritten tree level) lines rows)
    (hlines : ∀ line ∈ lines, FitsLevel (level + line.path.length)) :
    ∀ row ∈ rows, FitsLevel row.level := by
  induction hrows with
  | nil => simp
  | cons hline _ ih =>
    obtain ⟨hfirst, hrest⟩ := List.forall_mem_cons.1 hlines
    exact List.forall_mem_cons.2 ⟨hfirst.of_le hline.level_le, ih hrest⟩

theorem rows_below {child : Tree} {index : Nat} {lines : List Line} {rows : List Row}
    {inner : Int} (hchild : tree.children[index]? = some child)
    (hlevel : inner = level + if (Edge.mk tree index child).deepens then 1 else 0)
    (hrows : List.Forall₂ (Line.IsWritten child inner) lines rows) :
    List.Forall₂ (Line.IsWritten tree level) (lines.map (.below index)) rows := by
  rw [List.forall₂_map_left_iff]
  subst hlevel
  exact hrows.imp fun _ _ hline => hline.below hchild

/-- The level of a controlled statement is what the edge to it makes of the level. -/
theorem level_bodyState {statement : Tree} {index : Nat}
    (hlevels : (Edge.mk tree index statement).levels =
      (Edge.mk tree index statement).controlLevels) :
    (bodyState statement state).level =
      state.level + if (Edge.mk tree index statement).deepens then 1 else 0 := by
  rw [Edge.deepens, hlevels, Edge.controlLevels, bodyState]
  by_cases hkind : statement.kind = .compound
  · simp [hkind]
  · simp [hkind]

/-- Whether a statement is rendered as its lines. -/
def HasLines (tree : Tree) (state : State) : Prop :=
  ∃ rows : List Row, textIn state tree = rowsText rows ∧
    (treeDoc tree).StartsLines state.level (rows.map Row.level) ∧
    List.Forall₂ (Line.IsWritten tree state.level) (statementLines tree) rows

/-- The statements of a block, one level deeper than the block. -/
theorem exists_rows_block {statements : List Tree} {index : Nat}
    (hkind : tree.kind = .compound)
    (hstatements : ∀ statement ∈ statements,
      HasLines statement { state with level := state.level + 1 })
    (hchildren : tree.children.drop index = statements) :
    ∃ rows : List Row,
      statements.flatMap (textIn { state with level := state.level + 1 }) = rowsText rows ∧
      (Doc.seq ((viewParts index statements).map Part.doc)).StartsLines (state.level + 1)
        (rows.map Row.level) ∧
      List.Forall₂ (Line.IsWritten tree state.level) (blockLines index statements) rows := by
  induction statements generalizing index with
  | nil => exact ⟨[], rfl, .nil, .nil⟩
  | cons statement statements ih =>
    obtain ⟨⟨first, htext, hstarts, hfirst⟩, hrest⟩ := List.forall_mem_cons.1 hstatements
    have hchild : tree.children[index]? = some statement := by
      rw [← List.head?_drop, hchildren, List.head?_cons]
    have htail : tree.children.drop (index + 1) = statements := by
      rw [← List.tail_drop, hchildren, List.tail_cons]
    obtain ⟨rows, hrowsText, hrowsStart, hrows⟩ := ih hrest htail
    refine ⟨first ++ rows, ?_, ?_, ?_⟩
    · rw [List.flatMap_cons, htext, hrowsText, rowsText, rowsText, rowsText, List.flatMap_append]
    · rw [List.map_append]
      exact .cons (hstarts.child index) hrowsStart
    · have hdeepens : (Edge.mk tree index statement).deepens = true := by
        simp [Edge.deepens, Edge.levels, hkind]
      have hbelow : List.Forall₂ (Line.IsWritten tree state.level)
          ((statementLines statement).map (.below index)) first :=
        rows_below hchild (by rw [hdeepens]; rfl) hfirst
      exact List.rel_append hbelow hrows

/-- A statement of one line. -/
theorem hasLines_single {opening : String}
    (htree : textIn state tree = indentation state ++ (text ++ ['\n']))
    (hstarts : (treeDoc tree).StartsLines state.level [state.level])
    (hlines : statementLines tree = [.own opening]) (htext : Visible text)
    (hopening : opening.toList <+: text) : HasLines tree state := by
  refine ⟨[⟨state.level, text⟩], ?_, hstarts, ?_⟩
  · simp [htree, rowsText, Row.chars, State.margin]
  · rw [hlines]
    exact .cons (isWritten_own htext hopening) .nil

/-- A line with the statement that it controls. -/
theorem hasLines_controlled {statement : Tree} {index : Nat} {opening : String}
    (htree : textIn state tree =
      indentation state ++ (text ++ '\n' :: textIn (bodyState statement state) statement))
    (hstarts : ∀ {levels : List Int},
      (treeDoc statement).StartsLines (bodyState statement state).level levels →
        (treeDoc tree).StartsLines state.level (state.level :: levels))
    (hlines : statementLines tree = .own opening :: (statementLines statement).map (.below index))
    (htext : Visible text) (hopening : opening.toList <+: text)
    (hchild : tree.children[index]? = some statement)
    (hlevels : (Edge.mk tree index statement).levels =
      (Edge.mk tree index statement).controlLevels)
    (hstatement : HasLines statement (bodyState statement state)) : HasLines tree state := by
  obtain ⟨rows, hrowsText, hrowsStart, hrows⟩ := hstatement
  refine ⟨⟨state.level, text⟩ :: rows, ?_, hstarts hrowsStart, ?_⟩
  · simp [htree, hrowsText, rowsText, Row.chars, State.margin]
  · rw [hlines]
    exact .cons (isWritten_own htext hopening) (rows_below hchild (level_bodyState hlevels) hrows)

/-- The line of a label with the statement after it. -/
theorem hasLines_label {statement : Tree} {index : Nat} {opening : String}
    (htree : textIn state tree =
      indentation { state with level := state.level + -1 } ++
        (text ++ '\n' :: textIn state statement))
    (hstarts : ∀ {levels : List Int}, (treeDoc statement).StartsLines state.level levels →
      (treeDoc tree).StartsLines state.level ((state.level + -1) :: levels))
    (hlines : statementLines tree =
      .label opening :: (statementLines statement).map (.below index))
    (htext : Visible text) (hopening : opening.toList <+: text)
    (hchild : tree.children[index]? = some statement)
    (hlevels : (Edge.mk tree index statement).levels = 0)
    (hstatement : HasLines statement state) : HasLines tree state := by
  obtain ⟨rows, hrowsText, hrowsStart, hrows⟩ := hstatement
  have hlevel : state.level =
      state.level + if (Edge.mk tree index statement).deepens then 1 else 0 := by
    simp [Edge.deepens, hlevels]
  refine ⟨⟨state.level + -1, text⟩ :: rows, ?_, hstarts hrowsStart, ?_⟩
  · simp [htree, hrowsText, rowsText, Row.chars, State.margin]
  · rw [hlines]
    exact .cons (isWritten_label htext hopening) (rows_below hchild hlevel hrows)

end Lines

section Statements

def IsVisibleLabel (tree : Tree) : Prop :=
  ∃ kind name span, (kind = .identifier ∨ kind = .constant ∨ kind = .stringLiteral) ∧
    Visible name.toList ∧ tree = .node kind (some name) span []

/-- Statements whose expressions and labels can stand on lines. -/
abbrev IsVisibleStatement : Tree → Prop :=
  IsStatement (IsExpression IsVisibleNode .operand) IsVisibleLabel

theorem IsVisibleLabel.renders {tree : Tree} (htree : IsVisibleLabel tree) :
    Renders tree ∧ ∃ name, tree.text = some name := by
  obtain ⟨kind, name, span, hkind, -, rfl⟩ := htree
  exact ⟨renders_of_writes fun _ => writes_leaf name hkind, name, rfl⟩

theorem renders_of_isVisibleStatement {tree : Tree} (htree : IsVisibleStatement tree) :
    Renders tree :=
  htree.renders (fun _ hexpression => hexpression.renders) fun _ hlabel => hlabel.renders

/-- The line of a construct with its expression. -/
theorem visible_header {keyword test : List Char} (hkeyword : Visible keyword)
    (htest : '\n' ∉ test) : Visible (keyword ++ (test ++ " )".toList)) := by
  apply hkeyword.append
  simp [htest]

/-- A line with an expression and the statement that it controls. -/
theorem hasLines_headed {tree statement : Tree} {state : State} {index : Nat} {opening : String}
    {test : List Char}
    (htree : textIn state tree = indentation state ++ (opening.toList ++
      (test ++ (" )\n".toList ++ textIn (bodyState statement state) statement))))
    (hstarts : ∀ {levels : List Int},
      (treeDoc statement).StartsLines (bodyState statement state).level levels →
        (treeDoc tree).StartsLines state.level (state.level :: levels))
    (hlines : statementLines tree = .own opening :: (statementLines statement).map (.below index))
    (hopening : Visible opening.toList) (htest : '\n' ∉ test)
    (hchild : tree.children[index]? = some statement)
    (hlevels : (Edge.mk tree index statement).levels =
      (Edge.mk tree index statement).controlLevels)
    (hstatement : HasLines statement (bodyState statement state)) : HasLines tree state := by
  refine hasLines_controlled ?_ hstarts hlines (visible_header hopening htest)
    (List.prefix_append _ _) hchild hlevels hstatement
  rw [htree]
  simp

theorem lineFeed_notMem_optional {expression? : Option Tree} (state : State)
    (hexpression : ∀ expression ∈ expression?, IsExpression IsVisibleNode .operand expression) :
    '\n' ∉ optionalText (textIn state) expression? := by
  cases expression? with
  | none => simp
  | some expression => exact ((hexpression expression rfl).visible state).lineFeed_notMem

variable {state : State} {label : Option String} {span : Option Span} {statement : Tree}

theorem hasLines_simple {expression? : Option Tree}
    (hexpression : ∀ expression ∈ expression?, IsExpression IsVisibleNode .operand expression) :
    HasLines (.node .statement label span expression?.toList) state := by
  have hvisible : Visible
      (optionalText (textIn { state with bare := true }) expression? ++ [';']) := by
    cases expression? with
    | none => exact (by decide : Visible [';'])
    | some expression => exact ((hexpression expression rfl).visible _).append (by decide)
  have hopening : "".toList <+: optionalText (textIn { state with bare := true }) expression? ++
      [';'] := List.nil_prefix
  have hstarts := @startsLines_simple state label span expression? fun expression hmem =>
    (hexpression expression hmem).startsLines _
  refine hasLines_single ?_ hstarts (by simp) hvisible hopening
  rw [(writes_simple fun expression hmem => (hexpression expression hmem).renders _).textIn_eq]
  simp

theorem hasLines_compound {statements : List Tree}
    (hrenders : ∀ statement ∈ statements, Renders statement)
    (hstatements : ∀ statement ∈ statements,
      HasLines statement { state with level := state.level + 1 }) :
    HasLines (.node .compound label span statements) state := by
  obtain ⟨rows, hrowsText, hrowsStart, hrows⟩ :=
    @exists_rows_block (.node .compound label span statements) state statements 0 rfl hstatements
      rfl
  refine ⟨⟨state.level, ['\x7b']⟩ :: (rows ++ [⟨state.level, ['\x7d']⟩]), ?_, ?_, ?_⟩
  · rw [(writes_compound fun statement hmem => hrenders statement hmem _).textIn_eq, hrowsText]
    simp [rowsText, Row.chars, State.margin, indentation]
  · simpa using startsLines_compound hrowsStart
  · rw [statementLines]
    have hopen : Visible ['\x7b'] := by decide
    have hclose : Visible ['\x7d'] := by decide
    exact .cons (isWritten_own hopen (List.prefix_refl _))
      (List.rel_append hrows (.cons (isWritten_own hclose (List.prefix_refl _)) .nil))

theorem hasLines_labeled {target : Tree} (htarget : IsVisibleLabel target)
    (hrenders : Renders statement) (hstatement : HasLines statement state) :
    HasLines (.node .labeled label span [target, statement]) state := by
  obtain ⟨kind, name, targetSpan, -, hname, rfl⟩ := htarget
  have hvisible : Visible (name.toList ++ [':']) := hname.append (by decide)
  have hopening : "".toList <+: name.toList ++ [':'] := List.nil_prefix
  refine hasLines_label ?_ startsLines_labeled (by rw [statementLines]) hvisible hopening rfl rfl
    hstatement
  rw [(writes_labeled rfl (hrenders _)).textIn_eq]
  simp

theorem hasLines_caseLabel {value : Tree} (hvalue : IsExpression IsVisibleNode .operand value)
    (hrenders : Renders statement) (hstatement : HasLines statement state) :
    HasLines (.node .caseLabel label span [value, statement]) state := by
  have hkeyword : Visible "case ".toList := by decide
  have hvisible : Visible ("case ".toList ++
      (textIn { state with level := state.level + -1 } value ++ [':'])) :=
    hkeyword.append (by simp [(hvalue.visible _).lineFeed_notMem])
  refine hasLines_label ?_ (startsLines_caseLabel (hvalue.startsLines _))
    (by rw [statementLines]) hvisible (List.prefix_append _ _) rfl rfl hstatement
  rw [(writes_caseLabel (hvalue.renders _) (hrenders _)).textIn_eq]
  simp

theorem hasLines_defaultLabel (hrenders : Renders statement)
    (hstatement : HasLines statement state) :
    HasLines (.node .defaultLabel label span [statement]) state := by
  have hvisible : Visible "default:".toList := by decide
  refine hasLines_label ?_ startsLines_defaultLabel (by rw [statementLines]) hvisible
    (List.prefix_refl _) rfl rfl hstatement
  rw [(writes_defaultLabel (hrenders _)).textIn_eq]
  simp

theorem hasLines_atomic (hrenders : Renders statement)
    (hstatement : HasLines statement (bodyState statement state)) :
    HasLines (.node .atomic label span [statement]) state := by
  have hvisible : Visible "atomic".toList := by decide
  refine hasLines_controlled ?_ startsLines_atomic (by rw [statementLines]) hvisible
    (List.prefix_refl _) rfl rfl hstatement
  rw [(writes_atomic (hrenders _)).textIn_eq]
  simp

section Headed

variable {condition : Tree} (hcondition : IsExpression IsVisibleNode .operand condition)
include hcondition

theorem hasLines_ifThen {first : Tree} (hrenders : Renders first)
    (hfirst : HasLines first (bodyState first state)) :
    HasLines (.node .ifElse label span [condition, first]) state :=
  hasLines_headed (writes_ifThen (hcondition.renders _) (hrenders _)).textIn_eq
    (startsLines_ifThen (hcondition.startsLines _)) (by rw [statementLines]) (by decide)
    (hcondition.visible _).lineFeed_notMem rfl rfl hfirst

theorem hasLines_switch (hrenders : Renders statement)
    (hstatement : HasLines statement (bodyState statement state)) :
    HasLines (.node .switch label span [condition, statement]) state :=
  hasLines_headed (writes_switch (hcondition.renders _) (hrenders _)).textIn_eq
    (startsLines_headed (hcondition.startsLines _) (.inl rfl)) (by rw [statementLines]) (by decide)
    (hcondition.visible _).lineFeed_notMem rfl rfl hstatement

theorem hasLines_whileLoop (hrenders : Renders statement)
    (hstatement : HasLines statement (bodyState statement state)) :
    HasLines (.node .whileLoop label span [condition, statement]) state :=
  hasLines_headed (writes_whileLoop (hcondition.renders _) (hrenders _)).textIn_eq
    (startsLines_headed (hcondition.startsLines _) (.inr rfl)) (by rw [statementLines]) (by decide)
    (hcondition.visible _).lineFeed_notMem rfl rfl hstatement

/-- An `else` is on a line of its own, at the level of its `if`. -/
theorem hasLines_ifElse {first second : Tree} (hfirstRenders : Renders first)
    (hsecondRenders : Renders second) (hfirst : HasLines first (bodyState first state))
    (hsecond : HasLines second (bodyState second state)) :
    HasLines (.node .ifElse label span [condition, first, second]) state := by
  obtain ⟨rows, hrowsText, hrowsStart, hrows⟩ := hfirst
  obtain ⟨others, hothersText, hothersStart, hothers⟩ := hsecond
  have hkeyword : Visible "if( ".toList := by decide
  have helse : Visible "else".toList := by decide
  have hheader := visible_header hkeyword
    (hcondition.visible { state with bare := true }).lineFeed_notMem
  refine ⟨⟨state.level, "if( ".toList ++
      (textIn { state with bare := true } condition ++ " )".toList)⟩ ::
    (rows ++ ⟨state.level, "else".toList⟩ :: others), ?_, ?_, ?_⟩
  · rw [(writes_ifElse (hcondition.renders _) (hfirstRenders _) (hsecondRenders _)).textIn_eq,
      hrowsText, hothersText]
    simp [rowsText, Row.chars, State.margin, indentation]
  · simpa using startsLines_ifElse (hcondition.startsLines _) hrowsStart hothersStart
  · rw [statementLines]
    exact .cons (isWritten_own hheader (List.prefix_append _ _))
      (List.rel_append (rows_below rfl (level_bodyState rfl) hrows)
        (.cons (isWritten_own helse (List.prefix_refl _))
          (rows_below rfl (level_bodyState rfl) hothers)))

/-- The condition of a `do` is on a line of its own, at the level of its `do`. -/
theorem hasLines_doLoop (hrenders : Renders statement)
    (hstatement : HasLines statement (bodyState statement state)) :
    HasLines (.node .doLoop label span [statement, condition]) state := by
  obtain ⟨rows, hrowsText, hrowsStart, hrows⟩ := hstatement
  have hdo : Visible "do".toList := by decide
  have hwhile : Visible "while( ".toList := by decide
  have hlast : Visible ("while( ".toList ++
      (textIn { state with bare := true } condition ++ ");".toList)) :=
    hwhile.append (by simp [(hcondition.visible _).lineFeed_notMem])
  refine ⟨⟨state.level, "do".toList⟩ :: (rows ++ [⟨state.level, "while( ".toList ++
    (textIn { state with bare := true } condition ++ ");".toList)⟩]), ?_, ?_, ?_⟩
  · rw [(writes_doLoop (hrenders _) (hcondition.renders _)).textIn_eq, hrowsText]
    simp [rowsText, Row.chars, State.margin, indentation]
  · simpa using startsLines_doLoop (hcondition.startsLines _) hrowsStart
  · rw [statementLines]
    exact .cons (isWritten_own hdo (List.prefix_refl _))
      (List.rel_append (rows_below rfl (level_bodyState rfl) hrows)
        (.cons (isWritten_own hlast (List.prefix_append _ _)) .nil))

end Headed

theorem hasLines_forLoop {firstLabel secondLabel thirdLabel : Option String}
    {firstSpan secondSpan thirdSpan : Option Span} {first? second? third? : Option Tree}
    (hfirst : ∀ first ∈ first?, IsExpression IsVisibleNode .operand first)
    (hsecond : ∀ second ∈ second?, IsExpression IsVisibleNode .operand second)
    (hthird : ∀ third ∈ third?, IsExpression IsVisibleNode .operand third)
    (hrenders : Renders statement) (hstatement : HasLines statement (bodyState statement state)) :
    HasLines (.node .forLoop label span
      [.node (.forClause .initialization) firstLabel firstSpan first?.toList,
        .node (.forClause .condition) secondLabel secondSpan second?.toList,
        .node (.forClause .iteration) thirdLabel thirdSpan third?.toList, statement]) state := by
  have hclause : ∀ {clause : ForClause} {label : Option String} {span : Option Span}
      {expression? : Option Tree},
      (∀ expression ∈ expression?, IsExpression IsVisibleNode .operand expression) →
        (treeDoc (.node (.forClause clause) label span expression?.toList)).Writes state
          (optionalText (textIn { state with bare := true }) expression?) :=
    fun hexpression => writes_forClause fun expression hmem =>
      (hexpression expression hmem).renders _
  have hclauses : '\n' ∉ optionalText (textIn { state with bare := true }) first? ++
      ("; ".toList ++ (optionalText (textIn { state with bare := true }) second? ++
        ("; ".toList ++ optionalText (textIn { state with bare := true }) third?))) := by
    simp only [List.mem_append, lineFeed_notMem_optional _ hfirst,
      lineFeed_notMem_optional _ hsecond, lineFeed_notMem_optional _ hthird, or_false, false_or]
    decide
  have hstarts : ∀ {clause : ForClause} {label : Option String} {span : Option Span}
      {expression? : Option Tree},
      (∀ expression ∈ expression?, IsExpression IsVisibleNode .operand expression) →
        (treeDoc (.node (.forClause clause) label span expression?.toList)).StartsLines
          state.level [] :=
    fun hexpression => startsLines_forClause fun expression hmem =>
      (hexpression expression hmem).startsLines _
  refine hasLines_headed ?_
    (startsLines_forLoop (hstarts hfirst) (hstarts hsecond) (hstarts hthird))
    (by rw [statementLines]) (by decide) hclauses rfl rfl hstatement
  rw [(writes_forLoop (hclause hfirst) (hclause hsecond) (hclause hthird)
    (hrenders _)).textIn_eq]
  simp

theorem hasLines_gotoJump {leading? : Option Tree} {target : Tree}
    (htarget : IsVisibleLabel target) :
    HasLines (.node .gotoJump label span (leading?.toList ++ [target])) state := by
  obtain ⟨kind, name, targetSpan, hkind, hname, rfl⟩ := htarget
  have hkeyword : Visible "goto ".toList := by decide
  have hvisible : Visible ("goto ".toList ++ (name.toList ++ [';'])) :=
    hkeyword.append (by simp [hname.lineFeed_notMem])
  have hstarts := @startsLines_gotoJump state label span leading?
    (.node kind (some name) targetSpan []) (startsLines_leaf name hkind)
  refine hasLines_single ?_ hstarts (by simp) hvisible (List.prefix_append _ _)
  rw [(writes_gotoJump (writes_leaf name hkind)).textIn_eq]
  simp

theorem hasLines_continueJump : HasLines (.node .continueJump label span []) state := by
  have hvisible : Visible "continue;".toList := by decide
  refine hasLines_single ?_ startsLines_continueJump (by simp) hvisible (List.prefix_refl _)
  rw [writes_continueJump.textIn_eq]
  simp

theorem hasLines_breakJump : HasLines (.node .breakJump label span []) state := by
  have hvisible : Visible "break;".toList := by decide
  refine hasLines_single ?_ startsLines_breakJump (by simp) hvisible (List.prefix_refl _)
  rw [writes_breakJump.textIn_eq]
  simp

theorem hasLines_returnJump {expression? : Option Tree}
    (hexpression : ∀ expression ∈ expression?, IsExpression IsVisibleNode .operand expression) :
    HasLines (.node .returnJump label span expression?.toList) state := by
  have hkeyword : Visible "return ".toList := by decide
  have hvisible : Visible ("return ".toList ++
      (optionalText (textIn state) expression? ++ [';'])) :=
    hkeyword.append (by simp [lineFeed_notMem_optional state hexpression])
  have hstarts := @startsLines_returnJump state label span expression? fun expression hmem =>
    (hexpression expression hmem).startsLines _
  refine hasLines_single ?_ hstarts (by simp) hvisible (List.prefix_append _ _)
  rw [(writes_returnJump fun expression hmem => (hexpression expression hmem).renders _).textIn_eq]
  simp

/-- Every statement is rendered as its lines. -/
theorem hasLines_of_isVisibleStatement {tree : Tree} (htree : IsVisibleStatement tree)
    (state : State) : HasLines tree state := by
  induction htree generalizing state with
  | simple hexpression => exact hasLines_simple hexpression
  | compound hstatements ih =>
    exact hasLines_compound
      (fun statement hmem => renders_of_isVisibleStatement (hstatements statement hmem))
      fun statement hmem => ih statement hmem _
  | labeled htarget hstatement ih =>
    exact hasLines_labeled htarget (renders_of_isVisibleStatement hstatement) (ih _)
  | caseLabel hvalue hstatement ih =>
    exact hasLines_caseLabel hvalue (renders_of_isVisibleStatement hstatement) (ih _)
  | defaultLabel hstatement ih =>
    exact hasLines_defaultLabel (renders_of_isVisibleStatement hstatement) (ih _)
  | atomic hstatement ih =>
    exact hasLines_atomic (renders_of_isVisibleStatement hstatement) (ih _)
  | ifThen hcondition hfirst ih =>
    exact hasLines_ifThen hcondition (renders_of_isVisibleStatement hfirst) (ih _)
  | ifElse hcondition hfirst hsecond ihfirst ihsecond =>
    exact hasLines_ifElse hcondition (renders_of_isVisibleStatement hfirst)
      (renders_of_isVisibleStatement hsecond) (ihfirst _) (ihsecond _)
  | switch hvalue hstatement ih =>
    exact hasLines_switch hvalue (renders_of_isVisibleStatement hstatement) (ih _)
  | whileLoop hcondition hstatement ih =>
    exact hasLines_whileLoop hcondition (renders_of_isVisibleStatement hstatement) (ih _)
  | doLoop hstatement hcondition ih =>
    exact hasLines_doLoop hcondition (renders_of_isVisibleStatement hstatement) (ih _)
  | forLoop hfirst hsecond hthird hstatement ih =>
    exact hasLines_forLoop hfirst hsecond hthird (renders_of_isVisibleStatement hstatement) (ih _)
  | gotoJump htarget => exact hasLines_gotoJump htarget
  | continueJump => exact hasLines_continueJump
  | breakJump => exact hasLines_breakJump
  | returnJump hexpression => exact hasLines_returnJump hexpression

end Statements

section Results

/-- A statement is rendered as its lines, each at the level of the construct that writes it,
unless the indentation of a line is too large for a machine.  The level is afterwards what it
was before in any case. -/
theorem rendered_statement_lines {tree : Tree} (htree : IsVisibleStatement tree)
    (state : State) :
    ∃ rows : List Row, List.Forall₂ (Line.IsWritten tree state.level) (statementLines tree) rows ∧
      (renderPart tree state LineStart.bounded).state.level = state.level ∧
      ((∀ row ∈ rows, FitsLevel row.level) →
        (renderPart tree state LineStart.bounded).result = .ok (String.ofList (rowsText rows)) ∧
        (renderPart tree state LineStart.bounded).state = state) ∧
      ((∃ row ∈ rows, ¬FitsLevel row.level) → ∃ failure,
        (renderPart tree state LineStart.bounded).result = .error (.tooLarge failure)) := by
  obtain ⟨rows, htext, hstarts, hrows⟩ := hasLines_of_isVisibleStatement htree state
  have hwrites := renders_of_isVisibleStatement htree state
  rw [htext] at hwrites
  refine ⟨rows, hrows, ((treeDoc tree).agrees_run state LineStart.bounded).level, ?_, ?_⟩
  · intro hfits
    have hrun : renderPart tree state LineStart.bounded = renderPart tree state :=
      (treeDoc tree).run_bounded_eq (by simpa [hstarts.lineLevels_eq] using hfits)
    rw [hrun]
    exact ⟨hwrites.result_renderPart, hwrites.restored⟩
  · intro hfails
    obtain ⟨failure, hfailure⟩ := Doc.exists_tooLarge hstarts.unconditional hwrites.fault
      (by simpa [hstarts.lineLevels_eq] using hfails)
    refine ⟨failure, ?_⟩
    rw [Written.result, renderPart, hfailure]

/-- A label in front of an `if`, rendered below level zero. -/
theorem rendered_statement_lines_below_zero :
    ∃ rows, (renderPart (.node .labeled none none [.identifier "l", .node .ifElse none none
        [.identifier "c", .node .breakJump none none []]]) { State.initial with level := -1 }
          LineStart.bounded).result = .ok (String.ofList (rowsText rows)) ∧
      List.Forall₂ (Line.IsWritten (.node .labeled none none [.identifier "l",
          .node .ifElse none none [.identifier "c", .node .breakJump none none []]]) (-1))
        [⟨[], true, ""⟩, ⟨[1], false, "if( "⟩, ⟨[1, 1], false, "break;"⟩] rows := by
  have hl : IsVisibleLabel (.identifier "l") :=
    ⟨.identifier, "l", none, .inl rfl, by decide, rfl⟩
  have hc : IsExpression IsVisibleNode .operand (.identifier "c") :=
    .leaf (.inl rfl) ⟨⟨"c", rfl, by decide⟩, trivial⟩
  obtain ⟨rows, hrows, -, hfits, -⟩ := rendered_statement_lines
    (.labeled hl (.ifThen hc .breakJump)) { State.initial with level := -1 }
  exact ⟨rows, (hfits (fitsLevel_of_isWritten hrows (by decide))).1, hrows⟩

theorem chars_eq_of_rowsText {row : Row} {rows : List Row} {before after : List Char}
    (htext : Visible row.text) (hbefore : '\n' ∉ before)
    (heq : rowsText (row :: rows) = before ++ '\n' :: after) :
    row.chars = before ∧ rowsText rows = after := by
  have hchars : '\n' ∉ row.chars := by
    simp [Row.chars, htext.lineFeed_notMem]
  have hsplit : row.chars ++ '\n' :: rowsText rows = before ++ '\n' :: after := by
    rw [← heq]
    simp [rowsText]
  obtain ⟨more, hbefore, hmore⟩ | ⟨more, hchars, hmore⟩ := List.append_eq_append_iff.1 hsplit
  all_goals cases more <;> simp_all

/-- The text of an operator can end a line, so that the next one starts with one space, and the
indentation of a line can be too large. -/
theorem operator_text_ends_line :
    IsStatement (IsExpression IsVisibleLeaf .operand) IsVisibleLabel
      (.node .statement none none
        [.node (.binary .plus) (some "\n") none [.identifier "a", .identifier "b"]]) ∧
    (renderPart (.node .statement none none
      [.node (.binary .plus) (some "\n") none [.identifier "a", .identifier "b"]])
        .initial LineStart.bounded).result = .ok "a \n b;\n" ∧
    (∀ rows : List Row, (∀ row ∈ rows, Visible row.text) →
      String.ofList (rowsText rows) ≠ "a \n b;\n") ∧
    (renderPart (.node .breakJump none none []) { State.initial with level := 0x2000000000000000 }
      LineStart.bounded).result = .error (.tooLarge .tooLong) := by
  have hleaf : ∀ name : String, Visible name.toList →
      IsExpression IsVisibleLeaf .operand (.identifier name) :=
    fun name hname => .leaf (.inl rfl) ⟨name, rfl, hname⟩
  have hplus : IsExpression IsVisibleLeaf .operand
      (.node (.binary .plus) (some "\n") none [.identifier "a", .identifier "b"]) :=
    .binary (hleaf "a" (by decide)) (hleaf "b" (by decide)) trivial
  refine ⟨@IsStatement.simple _ _ none none (some _) (by simpa using hplus), rfl, ?_, rfl⟩
  intro rows hrows heq
  have htext : rowsText rows = "a ".toList ++ '\n' :: " b;\n".toList := by
    simpa using congrArg String.toList heq
  cases rows with
  | nil => simp [rowsText] at htext
  | cons first rows =>
    obtain ⟨hfirst, hrest⟩ := List.forall_mem_cons.1 hrows
    obtain ⟨-, hothers⟩ := chars_eq_of_rowsText hfirst (by decide) htext
    cases rows with
    | nil => simp [rowsText] at hothers
    | cons second rows =>
      have hsecond := (List.forall_mem_cons.1 hrest).1
      obtain ⟨hchars, -⟩ := @chars_eq_of_rowsText _ _ " b;".toList [] hsecond (by decide) hothers
      cases hlevel : second.level.toNat with
      | zero =>
        have hspace : second.text = " b;".toList := by simpa [Row.chars, hlevel] using hchars
        exact hsecond.2.1 (by simp [hspace])
      | succ level =>
        simp [Row.chars, hlevel, Nat.mul_succ, List.replicate_succ] at hchars

end Results

end NescTree.Render
