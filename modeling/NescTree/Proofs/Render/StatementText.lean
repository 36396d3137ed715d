import NescTree.Proofs.Render.Writing

/-!
# The texts of statements

The shapes of statements, and for each of them its text from the texts of its parts.  A
controlled statement is rendered one level deeper unless it is compound, and a label one
level shallower.
-/

namespace NescTree.Render

open Doc

/-- The statements, each with the children that its kind calls for.  What counts as an
expression and as a label is left open. -/
inductive IsStatement (isExpression isLabel : Tree → Prop) : Tree → Prop where
  | simple {label : Option String} {span : Option Span} {expression? : Option Tree}
      (hexpression : ∀ expression ∈ expression?, isExpression expression) :
      IsStatement isExpression isLabel (.node .statement label span expression?.toList)
  | compound {label : Option String} {span : Option Span} {statements : List Tree}
      (hstatements : ∀ statement ∈ statements, IsStatement isExpression isLabel statement) :
      IsStatement isExpression isLabel (.node .compound label span statements)
  | labeled {label : Option String} {span : Option Span} {target statement : Tree}
      (htarget : isLabel target) (hstatement : IsStatement isExpression isLabel statement) :
      IsStatement isExpression isLabel (.node .labeled label span [target, statement])
  | caseLabel {label : Option String} {span : Option Span} {value statement : Tree}
      (hvalue : isExpression value) (hstatement : IsStatement isExpression isLabel statement) :
      IsStatement isExpression isLabel (.node .caseLabel label span [value, statement])
  | defaultLabel {label : Option String} {span : Option Span} {statement : Tree}
      (hstatement : IsStatement isExpression isLabel statement) :
      IsStatement isExpression isLabel (.node .defaultLabel label span [statement])
  | atomic {label : Option String} {span : Option Span} {statement : Tree}
      (hstatement : IsStatement isExpression isLabel statement) :
      IsStatement isExpression isLabel (.node .atomic label span [statement])
  | ifThen {label : Option String} {span : Option Span} {condition first : Tree}
      (hcondition : isExpression condition) (hfirst : IsStatement isExpression isLabel first) :
      IsStatement isExpression isLabel (.node .ifElse label span [condition, first])
  | ifElse {label : Option String} {span : Option Span} {condition first second : Tree}
      (hcondition : isExpression condition) (hfirst : IsStatement isExpression isLabel first)
      (hsecond : IsStatement isExpression isLabel second) :
      IsStatement isExpression isLabel (.node .ifElse label span [condition, first, second])
  | switch {label : Option String} {span : Option Span} {value statement : Tree}
      (hvalue : isExpression value) (hstatement : IsStatement isExpression isLabel statement) :
      IsStatement isExpression isLabel (.node .switch label span [value, statement])
  | whileLoop {label : Option String} {span : Option Span} {condition statement : Tree}
      (hcondition : isExpression condition)
      (hstatement : IsStatement isExpression isLabel statement) :
      IsStatement isExpression isLabel (.node .whileLoop label span [condition, statement])
  | doLoop {label : Option String} {span : Option Span} {statement condition : Tree}
      (hstatement : IsStatement isExpression isLabel statement)
      (hcondition : isExpression condition) :
      IsStatement isExpression isLabel (.node .doLoop label span [statement, condition])
  | forLoop {label firstLabel secondLabel thirdLabel : Option String}
      {span firstSpan secondSpan thirdSpan : Option Span}
      {first? second? third? : Option Tree} {statement : Tree}
      (hfirst : ∀ first ∈ first?, isExpression first)
      (hsecond : ∀ second ∈ second?, isExpression second)
      (hthird : ∀ third ∈ third?, isExpression third)
      (hstatement : IsStatement isExpression isLabel statement) :
      IsStatement isExpression isLabel (.node .forLoop label span
        [.node (.forClause .initialization) firstLabel firstSpan first?.toList,
          .node (.forClause .condition) secondLabel secondSpan second?.toList,
          .node (.forClause .iteration) thirdLabel thirdSpan third?.toList, statement])
  /-- A node in front of the label is not rendered. -/
  | gotoJump {label : Option String} {span : Option Span} {leading? : Option Tree}
      {target : Tree} (htarget : isLabel target) :
      IsStatement isExpression isLabel (.node .gotoJump label span (leading?.toList ++ [target]))
  | continueJump {label : Option String} {span : Option Span} :
      IsStatement isExpression isLabel (.node .continueJump label span [])
  | breakJump {label : Option String} {span : Option Span} :
      IsStatement isExpression isLabel (.node .breakJump label span [])
  | returnJump {label : Option String} {span : Option Span} {expression? : Option Tree}
      (hexpression : ∀ expression ∈ expression?, isExpression expression) :
      IsStatement isExpression isLabel (.node .returnJump label span expression?.toList)

abbrev indentation (state : State) : List Char := List.replicate state.margin ' '

/-- The state in which a controlled statement is rendered. -/
def bodyState (statement : Tree) (state : State) : State :=
  if statement.kind = .compound then state else { state with level := state.level + 1 }

abbrev optionalText (text : Tree → List Char) (tree? : Option Tree) : List Char :=
  tree?.elim [] text

variable {state : State} {label : Option String} {span : Option Span}

section Parts

theorem Doc.Writes.body {statement : Tree} {text : List Char}
    (hstatement : (treeDoc statement).Writes (bodyState statement state) text) (index : Nat) :
    (body ((view statement).toPart index)).Writes state text := by
  rw [Render.body, kind_toPart]
  by_cases hkind : statement.kind = .compound
  · rw [if_pos hkind]
    rw [bodyState, if_pos hkind] at hstatement
    exact hstatement.child index
  · rw [if_neg hkind]
    rw [bodyState, if_neg hkind] at hstatement
    exact .indented (hstatement.child index)

theorem Doc.Writes.topExpression {expression : Tree} {text : List Char}
    (hexpression : (treeDoc expression).Writes { state with bare := true } text) (index : Nat) :
    (topExpression ((view expression).toPart index)).Writes state text :=
  .parentheses (hexpression.child index)

theorem Doc.Writes.header {keyword : String} {expression : Tree} {text : List Char}
    (hexpression : (treeDoc expression).Writes { state with bare := true } text) (index : Nat) :
    (header keyword ((view expression).toPart index)).Writes state
      (indentation state ++ (keyword.toList ++ '(' :: ' ' :: (text ++ [' ', ')', '\n']))) := by
  refine .congr (.cons .margin (.lit (.lit (.cons (.topExpression hexpression index)
    (.lit .nil))))) ?_
  simp

theorem Doc.Writes.block {contents : Doc} {text : List Char}
    (hcontents : contents.Writes { state with level := state.level + 1 } text) :
    (block contents).Writes state
      ('\x7b' :: '\n' :: (text ++ (indentation state ++ ['\x7d', '\n']))) := by
  refine .congr (.lit (.cons (.indented hcontents) (.cons .margin (.lit .nil)))) ?_
  simp

theorem writes_forClause {clause : ForClause} {expression? : Option Tree}
    {text : Tree → List Char}
    (hexpression : ∀ expression ∈ expression?,
      (treeDoc expression).Writes { state with bare := true } (text expression)) :
    (treeDoc (.node (.forClause clause) label span expression?.toList)).Writes state
      (optionalText text expression?) := by
  cases expression? with
  | none => exact .rule .nothing
  | some expression => exact .rule (.topExpression (hexpression expression rfl) 0)

end Parts

section Rules

theorem writes_simple {expression? : Option Tree} {text : Tree → List Char}
    (hexpression : ∀ expression ∈ expression?,
      (treeDoc expression).Writes { state with bare := true } (text expression)) :
    (treeDoc (.node .statement label span expression?.toList)).Writes state
      (indentation state ++ (optionalText text expression? ++ [';', '\n'])) := by
  have hinner : ((view (.node .statement label span expression?.toList)).ifChild 0
      topExpression).Writes state (optionalText text expression?) := by
    cases expression? with
    | none => exact .nothing
    | some expression => exact .topExpression (hexpression expression rfl) 0
  refine .congr (.rule (.cons .margin (.cons hinner (.lit .nil)))) ?_
  simp

/-- The line of a statement that is an expression. -/
theorem renderText_simple {expression : Tree} (hexpression : Renders expression)
    (span : Option Span) :
    renderText (.node .statement none span [expression]) =
      .ok (String.ofList
        (textIn { State.initial with bare := true } expression ++ [';', '\n', '\n'])) := by
  have hwrites : (treeDoc (.node .statement none span [expression])).Writes .initial
      (textIn { State.initial with bare := true } expression ++ [';', '\n']) :=
    @writes_simple .initial none span (some expression)
      (textIn { State.initial with bare := true }) (by simpa using hexpression _)
  rw [hwrites.renderText_eq, List.append_assoc]
  rfl

theorem writes_compound {statements : List Tree} {text : Tree → List Char}
    (hstatements : ∀ statement ∈ statements,
      (treeDoc statement).Writes { state with level := state.level + 1 } (text statement)) :
    (treeDoc (.node .compound label span statements)).Writes state
      (indentation state ++ '\x7b' :: '\n' ::
        (statements.flatMap text ++ (indentation state ++ ['\x7d', '\n']))) := by
  refine .congr (.rule (.cons .margin (.cons (.block (.seq (Writes.docs hstatements 0))) .nil))) ?_
  simp [List.flatMap_def]

theorem writes_labeled {name : String} {target statement : Tree} {text : List Char}
    (hname : target.text = some name) (hstatement : (treeDoc statement).Writes state text) :
    (treeDoc (.node .labeled label span [target, statement])).Writes state
      (indentation { state with level := state.level + -1 } ++
        (name.toList ++ ':' :: '\n' :: text)) := by
  have htext : (Doc.write ((view target).toPart 0).text).Writes
      { state with level := state.level + -1 } name.toList :=
    .textOf (by rw [text_toPart, hname])
  refine .congr (.rule (.cons (.indented (.cons .margin (.cons htext (.lit .nil))))
    (.cons (hstatement.child 1) .nil))) ?_
  simp

theorem writes_caseLabel {value statement : Tree} {text inner : List Char}
    (hvalue : (treeDoc value).Writes { state with level := state.level + -1 } inner)
    (hstatement : (treeDoc statement).Writes state text) :
    (treeDoc (.node .caseLabel label span [value, statement])).Writes state
      (indentation { state with level := state.level + -1 } ++
        ("case ".toList ++ (inner ++ ':' :: '\n' :: text))) := by
  refine .congr (.rule (.cons (.indented (.cons .margin (.lit (.cons (hvalue.child 0)
    (.lit .nil))))) (.cons (hstatement.child 1) .nil))) ?_
  simp

theorem writes_defaultLabel {statement : Tree} {text : List Char}
    (hstatement : (treeDoc statement).Writes state text) :
    (treeDoc (.node .defaultLabel label span [statement])).Writes state
      (indentation { state with level := state.level + -1 } ++
        ("default:\n".toList ++ text)) := by
  refine .congr (.rule (.cons (.indented (.cons .margin (.lit .nil)))
    (.cons (hstatement.child 0) .nil))) ?_
  simp

theorem writes_atomic {statement : Tree} {text : List Char}
    (hstatement : (treeDoc statement).Writes (bodyState statement state) text) :
    (treeDoc (.node .atomic label span [statement])).Writes state
      (indentation state ++ ("atomic\n".toList ++ text)) := by
  refine .congr (.rule (.cons .margin (.lit (.cons (.body hstatement 0) .nil)))) ?_
  simp

theorem writes_ifThen {condition first : Tree} {test text : List Char}
    (hcondition : (treeDoc condition).Writes { state with bare := true } test)
    (hfirst : (treeDoc first).Writes (bodyState first state) text) :
    (treeDoc (.node .ifElse label span [condition, first])).Writes state
      (indentation state ++ ("if( ".toList ++ (test ++ (" )\n".toList ++ text)))) := by
  refine .congr (.rule (.cons (.header hcondition 0) (.cons (.body hfirst 1)
    (.cons .nothing .nil)))) ?_
  simp

theorem writes_ifElse {condition first second : Tree} {test text other : List Char}
    (hcondition : (treeDoc condition).Writes { state with bare := true } test)
    (hfirst : (treeDoc first).Writes (bodyState first state) text)
    (hsecond : (treeDoc second).Writes (bodyState second state) other) :
    (treeDoc (.node .ifElse label span [condition, first, second])).Writes state
      (indentation state ++ ("if( ".toList ++ (test ++ (" )\n".toList ++ (text ++
        (indentation state ++ ("else\n".toList ++ other))))))) := by
  refine .congr (.rule (.cons (.header hcondition 0) (.cons (.body hfirst 1)
    (.cons (.cons .margin (.lit (.cons (.body hsecond 2) .nil))) .nil)))) ?_
  simp

theorem writes_switch {value statement : Tree} {test text : List Char}
    (hvalue : (treeDoc value).Writes { state with bare := true } test)
    (hstatement : (treeDoc statement).Writes (bodyState statement state) text) :
    (treeDoc (.node .switch label span [value, statement])).Writes state
      (indentation state ++ ("switch( ".toList ++ (test ++ (" )\n".toList ++ text)))) := by
  refine .congr (.rule (.cons (.header hvalue 0) (.cons (.body hstatement 1) .nil))) ?_
  simp

theorem writes_whileLoop {condition statement : Tree} {test text : List Char}
    (hcondition : (treeDoc condition).Writes { state with bare := true } test)
    (hstatement : (treeDoc statement).Writes (bodyState statement state) text) :
    (treeDoc (.node .whileLoop label span [condition, statement])).Writes state
      (indentation state ++ ("while( ".toList ++ (test ++ (" )\n".toList ++ text)))) := by
  refine .congr (.rule (.cons (.header hcondition 0) (.cons (.body hstatement 1) .nil))) ?_
  simp

theorem writes_doLoop {statement condition : Tree} {test text : List Char}
    (hstatement : (treeDoc statement).Writes (bodyState statement state) text)
    (hcondition : (treeDoc condition).Writes { state with bare := true } test) :
    (treeDoc (.node .doLoop label span [statement, condition])).Writes state
      (indentation state ++ ("do\n".toList ++ (text ++ (indentation state ++
        ("while( ".toList ++ (test ++ ");\n".toList)))))) := by
  refine .congr (.rule (.cons .margin (.lit (.cons (.body hstatement 0) (.cons .margin (.lit
    (.cons (.topExpression hcondition 1) (.lit .nil)))))))) ?_
  simp

theorem writes_forLoop {first second third statement : Tree}
    {start test step text : List Char} (hfirst : (treeDoc first).Writes state start)
    (hsecond : (treeDoc second).Writes state test) (hthird : (treeDoc third).Writes state step)
    (hstatement : (treeDoc statement).Writes (bodyState statement state) text) :
    (treeDoc (.node .forLoop label span [first, second, third, statement])).Writes state
      (indentation state ++ ("for( ".toList ++ (start ++ ("; ".toList ++ (test ++
        ("; ".toList ++ (step ++ (" )\n".toList ++ text)))))))) := by
  have hclauses : (Doc.joined "; " [childDoc 0 first, childDoc 1 second, childDoc 2 third]).Writes
      state (start ++ ("; ".toList ++ (test ++ ("; ".toList ++ step)))) :=
    .append (hfirst.child 0) (.append (.literal _) (.append (hsecond.child 1)
      (.append (.literal _) (hthird.child 2))))
  refine .congr (.rule (.cons .margin (.lit (.cons hclauses (.lit
    (.cons (.body hstatement 3) .nil)))))) ?_
  simp

theorem writes_gotoJump {leading? : Option Tree} {target : Tree} {text : List Char}
    (htarget : (treeDoc target).Writes state text) :
    (treeDoc (.node .gotoJump label span (leading?.toList ++ [target]))).Writes state
      (indentation state ++ ("goto ".toList ++ (text ++ [';', '\n']))) := by
  have hlast : ((view (.node .gotoJump label span (leading?.toList ++ [target]))).lastChild).Writes
      state text := by
    cases leading? with
    | none => exact htarget.child 0
    | some leading => exact htarget.child 1
  refine .congr (.rule (.cons .margin (.lit (.cons hlast (.lit .nil))))) ?_
  simp

theorem writes_continueJump : (treeDoc (.node .continueJump label span [])).Writes state
    (indentation state ++ "continue;\n".toList) := by
  refine .congr (.rule (.cons .margin (.lit .nil))) ?_
  simp

theorem writes_breakJump : (treeDoc (.node .breakJump label span [])).Writes state
    (indentation state ++ "break;\n".toList) := by
  refine .congr (.rule (.cons .margin (.lit .nil))) ?_
  simp

theorem writes_returnJump {expression? : Option Tree} {text : Tree → List Char}
    (hexpression : ∀ expression ∈ expression?,
      (treeDoc expression).Writes state (text expression)) :
    (treeDoc (.node .returnJump label span expression?.toList)).Writes state
      (indentation state ++ ("return ".toList ++
        (optionalText text expression? ++ [';', '\n']))) := by
  have hinner : ((view (.node .returnJump label span expression?.toList)).ifChild 0
      Part.doc).Writes state (optionalText text expression?) := by
    cases expression? with
    | none => exact .nothing
    | some expression => exact (hexpression expression rfl).child 0
  refine .congr (.rule (.cons .margin (.lit (.cons hinner (.lit .nil))))) ?_
  simp

end Rules

/-- Every statement can be rendered if its expressions and labels can. -/
theorem IsStatement.renders {isExpression isLabel : Tree → Prop} {tree : Tree}
    (htree : IsStatement isExpression isLabel tree)
    (hexpressions : ∀ expression, isExpression expression → Renders expression)
    (hlabels : ∀ target, isLabel target → Renders target ∧ ∃ name, target.text = some name) :
    Renders tree := by
  have hclause : ∀ {clause : ForClause} {label : Option String} {span : Option Span}
      {expression? : Option Tree}, (∀ expression ∈ expression?, isExpression expression) →
        Renders (.node (.forClause clause) label span expression?.toList) :=
    fun hexpression => renders_of_writes fun _ => writes_forClause fun expression hmem =>
      hexpressions expression (hexpression expression hmem) _
  induction htree with
  | simple hexpression =>
    exact renders_of_writes fun _ => writes_simple fun expression hmem =>
      hexpressions expression (hexpression expression hmem) _
  | compound _ ih =>
    exact renders_of_writes fun _ => writes_compound fun statement hmem => ih statement hmem _
  | labeled htarget _ ih =>
    obtain ⟨-, name, hname⟩ := hlabels _ htarget
    exact renders_of_writes fun _ => writes_labeled hname (ih _)
  | caseLabel hvalue _ ih =>
    exact renders_of_writes fun _ => writes_caseLabel (hexpressions _ hvalue _) (ih _)
  | defaultLabel _ ih => exact renders_of_writes fun _ => writes_defaultLabel (ih _)
  | atomic _ ih => exact renders_of_writes fun _ => writes_atomic (ih _)
  | ifThen hcondition _ ih =>
    exact renders_of_writes fun _ => writes_ifThen (hexpressions _ hcondition _) (ih _)
  | ifElse hcondition _ _ ihfirst ihsecond =>
    exact renders_of_writes fun _ =>
      writes_ifElse (hexpressions _ hcondition _) (ihfirst _) (ihsecond _)
  | switch hvalue _ ih =>
    exact renders_of_writes fun _ => writes_switch (hexpressions _ hvalue _) (ih _)
  | whileLoop hcondition _ ih =>
    exact renders_of_writes fun _ => writes_whileLoop (hexpressions _ hcondition _) (ih _)
  | doLoop _ hcondition ih =>
    exact renders_of_writes fun _ => writes_doLoop (ih _) (hexpressions _ hcondition _)
  | forLoop hfirst hsecond hthird _ ih =>
    exact renders_of_writes fun _ => writes_forLoop (hclause hfirst _) (hclause hsecond _)
      (hclause hthird _) (ih _)
  | gotoJump htarget => exact renders_of_writes fun _ => writes_gotoJump ((hlabels _ htarget).1 _)
  | continueJump => exact renders_of_writes fun _ => writes_continueJump
  | breakJump => exact renders_of_writes fun _ => writes_breakJump
  | returnJump hexpression =>
    exact renders_of_writes fun _ => writes_returnJump fun expression hmem =>
      hexpressions expression (hexpression expression hmem) _

end NescTree.Render
