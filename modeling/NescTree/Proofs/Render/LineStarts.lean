import NescTree.Proofs.Render.ExpressionText
import NescTree.Proofs.Render.Rules
import NescTree.Proofs.Render.StatementText

/-!
# Where programs start lines

A machine refuses an indentation whose size does not fit into a word.  The levels at which
a program starts its lines can be read off the program, since every scope changes the
level by a fixed amount.  If the indentations of all these levels fit, the program runs as
if none were ever refused, and if one does not, the program stops there.  A tree starts no
line deeper than it has nodes, so for a whole tree, which starts at level zero, only one
too large for any memory could have a line refused.
-/

namespace NescTree.Render

/-- Whether the indentation of a level has a size that fits into a word. -/
def FitsLevel (level : Int) : Prop := 4 * level < Size.wordLimit

instance (level : Int) : Decidable (FitsLevel level) := inferInstanceAs (Decidable (_ < _))

theorem FitsLevel.of_le {level other : Int} (hother : FitsLevel other) (hle : level ≤ other) :
    FitsLevel level := by
  rw [FitsLevel] at *
  omega

section LineStart

variable {state : State}

theorem repetition?_indentation_eq_none_iff (level : Int) :
    Size.repetition? 4 (max level 0) = none ↔ FitsLevel level := by
  rw [Size.repetition?_eq_none_iff, FitsLevel, Size.wordLimit]
  omega

theorem LineStart.bounded_eq_free (hlevel : FitsLevel state.level) :
    LineStart.bounded state = LineStart.free state := by
  rw [LineStart.bounded, (repetition?_indentation_eq_none_iff _).2 hlevel]

theorem LineStart.exists_bounded_eq_error (hlevel : ¬FitsLevel state.level) :
    ∃ failure, LineStart.bounded state = .error (.tooLarge failure) := by
  rw [← repetition?_indentation_eq_none_iff, ← ne_eq, Option.ne_none_iff_exists'] at hlevel
  obtain ⟨failure, hfailure⟩ := hlevel
  exact ⟨failure, by rw [LineStart.bounded, hfailure]⟩

end LineStart

def Scope.levels : Scope → Int
  | .indented amount => amount
  | .parentheses _ | .operator | .parameters | .declarator | .nestedDeclarator => 0

theorem Scope.level_enter {scope : Scope} {state : State} {entered : Entered}
    (henter : scope.enter state = .ok entered) :
    entered.state.level = state.level + scope.levels := by
  cases scope with
  | indented amount =>
    cases henter
    rfl
  | parentheses enabled | operator | parameters =>
    cases henter
    exact (Int.add_zero _).symm
  | declarator =>
    obtain ⟨counted, hcount, hentered⟩ := bind_eq_ok_iff.1 henter
    obtain ⟨count, outer, -, rfl⟩ := State.countDeclarators_eq_ok hcount
    cases hentered
    exact (Int.add_zero _).symm
  | nestedDeclarator =>
    obtain ⟨nested, -, hrest⟩ := bind_eq_ok_iff.1 henter
    obtain ⟨counted, hcount, hentered⟩ := bind_eq_ok_iff.1 hrest
    obtain ⟨count, outer, -, rfl⟩ := State.countDeclarators_eq_ok hcount
    cases hentered
    exact (Int.add_zero _).symm

namespace Written

theorem fault?_of_andThen {written : Written} {next : State → Written}
    (hruns : (written.andThen next).fault? = none) : written.fault? = none := by
  cases hfault : written.fault? with
  | none => rfl
  | some fault => simp [andThen, hfault] at hruns

end Written

namespace Doc

/-- The levels at which a program starts its lines, in order, when it is run at a level.  The
lines that may be skipped are among them. -/
def lineLevels : Doc → Int → List Int
  | .margin, level => [level]
  | .append first second, level => first.lineLevels level ++ second.lineLevels level
  | .within scope body, level => body.lineLevels (level + scope.levels)
  | .unlessSkipping body, level | .descend _ body, level | .visit body, level =>
    body.lineLevels level
  | .nothing, _ | .write _, _ | .fail _, _ | .directive _, _ | .report _, _ => []

def isUnconditional : Doc → Bool
  | .append first second => first.isUnconditional && second.isUnconditional
  | .within _ body | .descend _ body | .visit body => body.isUnconditional
  | .unlessSkipping _ => false
  | .nothing | .write _ | .margin | .fail _ | .directive _ | .report _ => true

/-- A scope that can be entered brings no fault of its own. -/
theorem fault?_within {scope : Scope} {state : State} {entered : Entered}
    (henter : scope.enter state = .ok entered) (body : Doc) (start : LineStart) :
    ((Doc.within scope body).run state start).fault? = (body.run entered.state start).fault? := by
  obtain ⟨restored, hundo, -⟩ := Scope.exists_undo henter (body.agrees_run entered.state start)
  rw [run, henter]
  simp only [Written.andThen, Written.ofText, Written.leave, hundo]
  cases (body.run entered.state start).fault? <;> rfl

/-- If the indentations of all lines fit, none is refused. -/
theorem run_bounded_eq (doc : Doc) {state : State}
    (hfits : ∀ level ∈ doc.lineLevels state.level, FitsLevel level) :
    doc.run state LineStart.bounded = doc.run state := by
  induction doc generalizing state with
  | nothing | fail | report => rfl
  | write text => cases text <;> rfl
  | directive name => cases name <;> rfl
  | margin => rw [run, run, LineStart.bounded_eq_free (hfits _ List.mem_cons_self)]
  | append first second ihfirst ihsecond =>
    obtain ⟨hfirst, hsecond⟩ := List.forall_mem_append.1 hfits
    have hmiddle : (first.run state).state.level = state.level := (first.agrees_run state).level
    rw [← hmiddle] at hsecond
    rw [run, run, ihfirst hfirst, Written.andThen, Written.andThen, ihsecond hsecond]
  | within scope body ih =>
    rw [run, run]
    cases henter : scope.enter state with
    | error fault => rfl
    | ok entered =>
      rw [lineLevels, ← Scope.level_enter henter] at hfits
      simp only [Written.andThen, Written.ofText, ih hfits]
  | unlessSkipping body ih => rw [run, run, ih hfits]
  | descend index body ih | visit body ih => exact ih hfits

/-- If the indentation of a line does not fit, a program that has no other fault stops with
that one. -/
theorem exists_tooLarge {doc : Doc} (hdoc : doc.isUnconditional = true) {state : State}
    (hruns : (doc.run state).fault? = none)
    (hfails : ∃ level ∈ doc.lineLevels state.level, ¬FitsLevel level) :
    ∃ failure, (doc.run state LineStart.bounded).fault? = some (.tooLarge failure) := by
  induction doc generalizing state with
  | nothing | fail | report | write | directive => simp [lineLevels] at hfails
  | unlessSkipping => cases hdoc
  | margin =>
    obtain ⟨failure, hstart⟩ :=
      LineStart.exists_bounded_eq_error (by simpa [lineLevels] using hfails)
    refine ⟨failure, ?_⟩
    rw [run, hstart]
    rfl
  | append first second ihfirst ihsecond =>
    obtain ⟨hfirst, hsecond⟩ := Bool.and_eq_true_iff.1 hdoc
    have hfirstRuns : (first.run state).fault? = none := Written.fault?_of_andThen hruns
    have hsecondRuns : (second.run (first.run state).state).fault? = none := by
      rwa [run, Written.andThen, hfirstRuns] at hruns
    by_cases hfits : ∀ level ∈ first.lineLevels state.level, FitsLevel level
    · have hothers : ∃ level ∈ second.lineLevels (first.run state).state.level,
          ¬FitsLevel level := by
        obtain ⟨level, hmem, hlevel⟩ := hfails
        have hnotMem : level ∉ first.lineLevels state.level := fun hmem => hlevel (hfits _ hmem)
        rw [(first.agrees_run state).level]
        exact ⟨level, (List.mem_append.1 hmem).resolve_left hnotMem, hlevel⟩
      obtain ⟨failure, hfailure⟩ := ihsecond hsecond hsecondRuns hothers
      refine ⟨failure, ?_⟩
      rwa [run, run_bounded_eq first hfits, Written.andThen, hfirstRuns]
    · obtain ⟨failure, hfailure⟩ := ihfirst hfirst hfirstRuns (by simpa using hfits)
      refine ⟨failure, ?_⟩
      rw [run, Written.andThen, hfailure, hfailure]
  | within scope body ih =>
    cases henter : scope.enter state with
    | error fault =>
      rw [run, henter] at hruns
      cases hruns
    | ok entered =>
      rw [fault?_within henter] at hruns ⊢
      rw [lineLevels, ← Scope.level_enter henter] at hfails
      exact ih hdoc hruns hfails
  | descend index body ih | visit body ih => exact ih hdoc hruns hfails

end Doc

section Trees

theorem Edge.levels_le (edge : Edge) : edge.levels ≤ 1 := by
  have hcontrol : edge.controlLevels ≤ 1 := by
    rw [Edge.controlLevels]
    split <;> decide
  rw [Edge.levels]
  split <;> try split
  all_goals first | exact hcontrol | decide

theorem level_changeInside_concat (scopes : List Scope) (scope : Scope) (base : State) :
    (changeInside (scopes ++ [scope]) base).level =
      (changeInside scopes base).level + scope.levels := by
  have hconcat : changeInside (scopes ++ [scope]) base =
      scope.change (changeInside scopes base) := by
    rw [changeInside, List.foldl_concat]
    rfl
  rw [hconcat]
  cases scope <;> simp [Scope.change, Scope.levels]

/-- A rule starts no line deeper than the tree has nodes, if this is so for the nodes that it
renders. -/
theorem Composed.lineLevels_lt {tree : Tree} {scopes : List Scope} {uses : List Use}
    {before after : List Char} {doc : Doc} (hdoc : Composed tree scopes uses before after doc)
    (hfits : ∀ use ∈ uses, use.Fits tree)
    (hchildren : ∀ child ∈ tree.children, ∀ start, ∀ level ∈ (treeDoc child).lineLevels start,
      level < start + child.walk.length)
    (hbelow : ∀ child ∈ tree.children, ∀ below ∈ child.children, ∀ start,
      ∀ level ∈ (treeDoc below).lineLevels start, level < start + below.walk.length)
    (base : State) :
    ∀ level ∈ doc.lineLevels (changeInside scopes base).level,
      level < base.level + tree.walk.length := by
  induction hdoc with
  | nothing | fail | report | literal | ownText | childText | directive => simp [Doc.lineLevels]
  | margin | labelMargin =>
    have hpos := tree.length_walk_pos
    simp only [Doc.lineLevels, List.forall_mem_singleton, changeInside, List.foldl_nil,
      List.foldl_cons, Scope.change]
    omega
  | @child scopes _ index child hchild =>
    obtain ⟨-, hedge⟩ := hfits _ (List.mem_singleton_self _)
    have hlevels : (changeInside scopes base).level =
        base.level + (Edge.mk tree index child).levels :=
      congrArg State.level (hedge child hchild base)
    have hle := (Edge.mk tree index child).levels_le
    have hmem := List.mem_of_getElem? hchild
    have hlength := Tree.length_walk_lt_of_child hmem
    intro level hlevel
    have hless := hchildren child hmem _ level hlevel
    omega
  | @endpoint scopes _ operator child index hoperator hchild =>
    obtain ⟨-, -, rfl⟩ := hfits _ (List.mem_singleton_self _)
    have hoperatorMem := List.mem_of_getElem? hoperator
    have hmem := List.mem_of_getElem? hchild
    have houter := Tree.length_walk_lt_of_child hoperatorMem
    have hlength := Tree.length_walk_lt_of_child hmem
    intro level hlevel
    have hless := hbelow operator hoperatorMem child hmem base.level level hlevel
    omega
  | append _ _ hfirst hsecond =>
    rw [List.forall_mem_append] at hfits
    rw [Doc.lineLevels, List.forall_mem_append]
    exact ⟨hfirst hfits.1, hsecond hfits.2⟩
  | within _ hbody =>
    have hinside := hbody [] hfits
    rwa [level_changeInside_concat] at hinside
  | unlessSkipping _ hbody => exact hbody hfits
  | fewer _ huses hdoc => exact hdoc fun use huse => hfits use (huses.subset huse)

/-- A tree starts no line deeper than it has nodes. -/
theorem lineLevels_lt (tree : Tree) :
    ∀ start, ∀ level ∈ (treeDoc tree).lineLevels start, level < start + tree.walk.length := by
  induction tree using Tree.inductionBelow with
  | step tree hchildren hbelow =>
    intro start
    obtain ⟨uses, hcomposed, -, hfits⟩ := isComposed_rule tree
    exact (hcomposed []).lineLevels_lt hfits hchildren hbelow { State.initial with level := start }

/-- A tree is rendered as it is without a limit, if the indentation fits at a level as far below
the one of its start as the tree has nodes. -/
theorem renderPart_bounded_eq {tree : Tree} {state : State}
    (hsize : FitsLevel (state.level + tree.walk.length)) :
    renderPart tree state LineStart.bounded = renderPart tree state := by
  apply Doc.run_bounded_eq
  intro level hlevel
  exact hsize.of_le (Int.le_of_lt (lineLevels_lt tree _ level hlevel))

/-- A session renders a whole tree as it is rendered without a limit, if four times the number of
its nodes fits into a word. -/
theorem Session.written_render_eq {tree : Tree} (session : Session)
    (hsize : FitsLevel tree.walk.length) :
    (session.render tree).written = renderTree tree := by
  apply Doc.run_bounded_eq (wholeDoc tree)
  intro level (hlevel : level ∈ (wholeDoc tree).lineLevels 0)
  have hmem : level ∈ (treeDoc tree).lineLevels 0 := by
    simpa [wholeDoc, Doc.seq, Doc.lineLevels] using hlevel
  have hless := lineLevels_lt tree 0 level hmem
  exact hsize.of_le (by omega)

end Trees

namespace Doc

/-- Whether a program starts its lines at some levels, in order, and skips none of them. -/
structure StartsLines (doc : Doc) (level : Int) (levels : List Int) : Prop where
  lineLevels_eq : doc.lineLevels level = levels
  unconditional : doc.isUnconditional = true

namespace StartsLines

variable {doc first second body : Doc} {docs : List Doc} {level : Int} {levels others : List Int}

theorem congr (hdoc : doc.StartsLines level levels) (heq : levels = others) :
    doc.StartsLines level others :=
  heq ▸ hdoc

theorem nothing : Doc.nothing.StartsLines level [] := ⟨rfl, rfl⟩

theorem write {text : Option String} : (Doc.write text).StartsLines level [] := ⟨rfl, rfl⟩

theorem margin : Doc.margin.StartsLines level [level] := ⟨rfl, rfl⟩

theorem append (hfirst : first.StartsLines level levels)
    (hsecond : second.StartsLines level others) :
    (Doc.append first second).StartsLines level (levels ++ others) := by
  constructor
  · rw [lineLevels, hfirst.lineLevels_eq, hsecond.lineLevels_eq]
  · rw [isUnconditional, hfirst.unconditional, hsecond.unconditional, Bool.and_true]

theorem nil : (Doc.seq []).StartsLines level [] := nothing

theorem cons (hdoc : doc.StartsLines level levels)
    (hdocs : (Doc.seq docs).StartsLines level others) :
    (Doc.seq (doc :: docs)).StartsLines level (levels ++ others) :=
  append hdoc hdocs

theorem lit {text : Option String} (hdocs : (Doc.seq docs).StartsLines level levels) :
    (Doc.seq (.write text :: docs)).StartsLines level levels :=
  append write hdocs

theorem seq (hdocs : ∀ doc ∈ docs, doc.StartsLines level []) :
    (Doc.seq docs).StartsLines level [] := by
  induction docs with
  | nil => exact nil
  | cons doc docs ih =>
    obtain ⟨hdoc, hrest⟩ := List.forall_mem_cons.1 hdocs
    exact cons hdoc (ih hrest)

theorem joined {separator : String} (hdocs : ∀ doc ∈ docs, doc.StartsLines level []) :
    (Doc.joined separator docs).StartsLines level [] := by
  induction docs with
  | nil => exact nothing
  | cons doc docs ih =>
    obtain ⟨hdoc, hrest⟩ := List.forall_mem_cons.1 hdocs
    cases docs with
    | nil => exact hdoc
    | cons next docs => exact append hdoc (append write (ih hrest))

theorem indented {amount : Int} (hbody : body.StartsLines (level + amount) levels) :
    (Doc.within (.indented amount) body).StartsLines level levels :=
  ⟨hbody.lineLevels_eq, hbody.unconditional⟩

theorem within {scope : Scope} (hscope : scope.levels = 0)
    (hbody : body.StartsLines level levels) :
    (Doc.within scope body).StartsLines level levels := by
  refine ⟨?_, hbody.unconditional⟩
  rw [lineLevels, hscope, Int.add_zero, hbody.lineLevels_eq]

section Nodes

variable {tree : Tree}

theorem rule (hrule : (view tree).doc.StartsLines level levels) :
    (treeDoc tree).StartsLines level levels :=
  ⟨hrule.lineLevels_eq, hrule.unconditional⟩

theorem child (htree : (treeDoc tree).StartsLines level levels) (index : Nat) :
    (childDoc index tree).StartsLines level levels :=
  ⟨htree.lineLevels_eq, htree.unconditional⟩

theorem parts {children : List Tree}
    (hchildren : ∀ child ∈ children, (treeDoc child).StartsLines level []) (start : Nat) :
    ∀ doc ∈ (viewParts start children).map Part.doc, doc.StartsLines level [] := by
  induction children generalizing start with
  | nil => simp [viewParts]
  | cons first children ih =>
    obtain ⟨hfirst, hrest⟩ := List.forall_mem_cons.1 hchildren
    exact List.forall_mem_cons.2 ⟨hfirst.child start, ih hrest (start + 1)⟩

end Nodes

end StartsLines

end Doc

theorem startsLines_leaf {kind : Kind} {span : Option Span} {level : Int} (text : String)
    (hkind : kind = .identifier ∨ kind = .constant ∨ kind = .stringLiteral) :
    (treeDoc (.node kind (some text) span [])).StartsLines level [] := by
  obtain rfl | rfl | rfl := hkind <;> exact .rule .write

/-- Expressions start no line. -/
theorem IsExpression.startsLines {permits : Tree → Prop} {place : Place} {tree : Tree}
    (htree : IsExpression permits place tree) (level : Int) :
    (treeDoc tree).StartsLines level [] := by
  induction htree with
  | leaf hkind => exact startsLines_leaf _ hkind
  | binary _ _ _ hleft hright =>
    exact .rule (.within rfl (.cons (hleft.child 0) (.lit (.lit (.lit
      (.cons (hright.child 1) .nil))))))
  | conditional _ _ _ _ hcondition hfirst hsecond =>
    exact .rule (.within rfl (.cons (hcondition.child 0) (.lit (.cons (hfirst.child 1) (.lit
      (.cons (hsecond.child 2) .nil))))))
  | unary _ _ hinner => exact .rule (.lit (.cons (.within rfl (hinner.child 0)) .nil))
  | dereference _ _ hinner =>
    exact .rule (.lit (.cons (.within rfl (hinner.child 0)) (.lit .nil)))
  | chain _ _ _ hbase hfollowers =>
    exact .rule (.within rfl (.seq (.parts (List.forall_mem_cons.2 ⟨hbase, hfollowers⟩) 0)))
  | arguments _ _ harguments =>
    exact .rule (.lit (.cons (.joined (.parts harguments 0)) (.lit .nil)))
  | element _ _ hindex => exact .rule (.lit (.cons (hindex.child 0) (.lit .nil)))
  | selector hkind _ _ hname =>
    obtain rfl | rfl := hkind <;> exact .rule (.lit (.cons (hname.child 0) .nil))
  | count hkind =>
    obtain rfl | rfl := hkind <;> exact .rule .write

section Statements

open Doc (StartsLines)

variable {state : State} {label : Option String} {span : Option Span} {statement : Tree}
  {levels others : List Int}

theorem Doc.StartsLines.body
    (hstatement : (treeDoc statement).StartsLines (bodyState statement state).level levels)
    (index : Nat) : (body ((view statement).toPart index)).StartsLines state.level levels := by
  rw [Render.body, kind_toPart]
  by_cases hkind : statement.kind = .compound
  · rw [if_pos hkind]
    rw [bodyState, if_pos hkind] at hstatement
    exact hstatement.child index
  · rw [if_neg hkind]
    rw [bodyState, if_neg hkind] at hstatement
    exact .indented (hstatement.child index)

theorem Doc.StartsLines.topExpression {expression : Tree}
    (hexpression : (treeDoc expression).StartsLines state.level []) (index : Nat) :
    (topExpression ((view expression).toPart index)).StartsLines state.level [] :=
  .within rfl (hexpression.child index)

theorem Doc.StartsLines.header {keyword : String} {expression : Tree}
    (hexpression : (treeDoc expression).StartsLines state.level []) (index : Nat) :
    (header keyword ((view expression).toPart index)).StartsLines state.level [state.level] :=
  .cons .margin (.lit (.lit (.cons (.topExpression hexpression index) (.lit .nil))))

theorem Doc.StartsLines.block {contents : Doc}
    (hcontents : contents.StartsLines (state.level + 1) levels) :
    (block contents).StartsLines state.level (levels ++ [state.level]) :=
  .lit (.cons (.indented hcontents) (.cons .margin (.lit .nil)))

theorem startsLines_forClause {clause : ForClause} {expression? : Option Tree}
    (hexpression : ∀ expression ∈ expression?, (treeDoc expression).StartsLines state.level []) :
    (treeDoc (.node (.forClause clause) label span expression?.toList)).StartsLines
      state.level [] := by
  cases expression? with
  | none => exact .rule .nothing
  | some expression => exact .rule (.topExpression (hexpression expression rfl) 0)

theorem startsLines_simple {expression? : Option Tree}
    (hexpression : ∀ expression ∈ expression?, (treeDoc expression).StartsLines state.level []) :
    (treeDoc (.node .statement label span expression?.toList)).StartsLines
      state.level [state.level] := by
  have hinner : ((view (.node .statement label span expression?.toList)).ifChild 0
      topExpression).StartsLines state.level [] := by
    cases expression? with
    | none => exact .nothing
    | some expression => exact .topExpression (hexpression expression rfl) 0
  exact .rule (.cons .margin (.cons hinner (.lit .nil)))

theorem startsLines_compound {statements : List Tree}
    (hstatements : (Doc.seq ((viewParts 0 statements).map Part.doc)).StartsLines
      (state.level + 1) levels) :
    (treeDoc (.node .compound label span statements)).StartsLines state.level
      (state.level :: (levels ++ [state.level])) :=
  .rule (.congr (.cons .margin (.cons (.block hstatements) .nil)) (by simp))

theorem startsLines_labeled {target : Tree}
    (hstatement : (treeDoc statement).StartsLines state.level levels) :
    (treeDoc (.node .labeled label span [target, statement])).StartsLines state.level
      ((state.level + -1) :: levels) :=
  .rule (.congr (.cons (.indented (.cons .margin (.lit (.lit .nil))))
    (.cons (hstatement.child 1) .nil)) (by simp))

theorem startsLines_caseLabel {value : Tree}
    (hvalue : (treeDoc value).StartsLines (state.level + -1) [])
    (hstatement : (treeDoc statement).StartsLines state.level levels) :
    (treeDoc (.node .caseLabel label span [value, statement])).StartsLines state.level
      ((state.level + -1) :: levels) :=
  .rule (.congr (.cons (.indented (.cons .margin (.lit (.cons (hvalue.child 0) (.lit .nil)))))
    (.cons (hstatement.child 1) .nil)) (by simp))

theorem startsLines_defaultLabel
    (hstatement : (treeDoc statement).StartsLines state.level levels) :
    (treeDoc (.node .defaultLabel label span [statement])).StartsLines state.level
      ((state.level + -1) :: levels) :=
  .rule (.congr (.cons (.indented (.cons .margin (.lit .nil)))
    (.cons (hstatement.child 0) .nil)) (by simp))

theorem startsLines_atomic
    (hstatement : (treeDoc statement).StartsLines (bodyState statement state).level levels) :
    (treeDoc (.node .atomic label span [statement])).StartsLines state.level
      (state.level :: levels) :=
  .rule (.congr (.cons .margin (.lit (.cons (.body hstatement 0) .nil))) (by simp))

section Headed

variable {condition : Tree} (hcondition : (treeDoc condition).StartsLines state.level [])
include hcondition

theorem startsLines_ifThen
    (hstatement : (treeDoc statement).StartsLines (bodyState statement state).level levels) :
    (treeDoc (.node .ifElse label span [condition, statement])).StartsLines state.level
      (state.level :: levels) :=
  .rule (.congr (.cons (.header hcondition 0) (.cons (.body hstatement 1) (.cons .nothing .nil)))
    (by simp))

theorem startsLines_ifElse {other : Tree}
    (hstatement : (treeDoc statement).StartsLines (bodyState statement state).level levels)
    (hother : (treeDoc other).StartsLines (bodyState other state).level others) :
    (treeDoc (.node .ifElse label span [condition, statement, other])).StartsLines state.level
      (state.level :: (levels ++ state.level :: others)) :=
  .rule (.congr (.cons (.header hcondition 0) (.cons (.body hstatement 1)
    (.cons (.cons .margin (.lit (.cons (.body hother 2) .nil))) .nil))) (by simp))

theorem startsLines_headed {kind : Kind} (hkind : kind = .switch ∨ kind = .whileLoop)
    (hstatement : (treeDoc statement).StartsLines (bodyState statement state).level levels) :
    (treeDoc (.node kind label span [condition, statement])).StartsLines state.level
      (state.level :: levels) := by
  have hseq : ∀ keyword : String, (Doc.seq [Render.header keyword ((view condition).toPart 0),
      Render.body ((view statement).toPart 1)]).StartsLines state.level (state.level :: levels) :=
    fun keyword => .congr (.cons (.header hcondition 0) (.cons (.body hstatement 1) .nil)) (by simp)
  obtain rfl | rfl := hkind
  · exact .rule (hseq "switch")
  · exact .rule (hseq "while")

theorem startsLines_doLoop
    (hstatement : (treeDoc statement).StartsLines (bodyState statement state).level levels) :
    (treeDoc (.node .doLoop label span [statement, condition])).StartsLines state.level
      (state.level :: (levels ++ [state.level])) :=
  .rule (.congr (.cons .margin (.lit (.cons (.body hstatement 0) (.cons .margin (.lit
    (.cons (.topExpression hcondition 1) (.lit .nil))))))) (by simp))

end Headed

theorem startsLines_forLoop {first second third : Tree}
    (hfirst : (treeDoc first).StartsLines state.level [])
    (hsecond : (treeDoc second).StartsLines state.level [])
    (hthird : (treeDoc third).StartsLines state.level [])
    (hstatement : (treeDoc statement).StartsLines (bodyState statement state).level levels) :
    (treeDoc (.node .forLoop label span [first, second, third, statement])).StartsLines
      state.level (state.level :: levels) := by
  have hclauses : (Doc.joined "; " [childDoc 0 first, childDoc 1 second,
      childDoc 2 third]).StartsLines state.level [] :=
    .append (hfirst.child 0) (.append .write (.append (hsecond.child 1)
      (.append .write (hthird.child 2))))
  exact .rule (.congr (.cons .margin (.lit (.cons hclauses (.lit
    (.cons (.body hstatement 3) .nil))))) (by simp))

theorem startsLines_gotoJump {leading? : Option Tree} {target : Tree}
    (htarget : (treeDoc target).StartsLines state.level []) :
    (treeDoc (.node .gotoJump label span (leading?.toList ++ [target]))).StartsLines state.level
      [state.level] := by
  have hlast : ((view (.node .gotoJump label span
      (leading?.toList ++ [target]))).lastChild).StartsLines state.level [] := by
    cases leading? with
    | none => exact htarget.child 0
    | some leading => exact htarget.child 1
  exact .rule (.cons .margin (.lit (.cons hlast (.lit .nil))))

theorem startsLines_continueJump :
    (treeDoc (.node .continueJump label span [])).StartsLines state.level [state.level] :=
  .rule (.cons .margin (.lit .nil))

theorem startsLines_breakJump :
    (treeDoc (.node .breakJump label span [])).StartsLines state.level [state.level] :=
  .rule (.cons .margin (.lit .nil))

theorem startsLines_returnJump {expression? : Option Tree}
    (hexpression : ∀ expression ∈ expression?, (treeDoc expression).StartsLines state.level []) :
    (treeDoc (.node .returnJump label span expression?.toList)).StartsLines state.level
      [state.level] := by
  have hinner : ((view (.node .returnJump label span expression?.toList)).ifChild 0
      Part.doc).StartsLines state.level [] := by
    cases expression? with
    | none => exact .nothing
    | some expression => exact (hexpression expression rfl).child 0
  exact .rule (.cons .margin (.lit (.cons hinner (.lit .nil))))

end Statements

end NescTree.Render
