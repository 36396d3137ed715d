import NescTree.Proofs.Render.ExpressionReading
import NescTree.Proofs.Render.Requirements
import NescTree.Proofs.Render.RootPath

/-!
# Which operators have parentheses of their own

Whether an operator is put in parentheses depends on the way down to it.  Some places of a
tree suppress the parentheses of the operator that stands there.  The suppression is in
force until an edge further down clears it, and most edges do not.  So an operator goes
without parentheses where it stands at such a place itself, and also where only edges that
neither set nor clear the suppression lie between it and such a place.
-/

namespace NescTree.Render

section Writing

variable {first second body : Doc} {state : State}

/-- What two programs write one after the other, if none of them stops. -/
theorem text_append_of_ok (hfault : ((Doc.append first second).run state).fault? = none) :
    (first.run state).fault? = none ∧
      (second.run (first.run state).state).fault? = none ∧
      ((Doc.append first second).run state).text =
        (first.run state).text ++ (second.run (first.run state).state).text := by
  cases hfirst : (first.run state).fault? with
  | some fault =>
    rw [fault?_append_of_some hfirst] at hfault
    cases hfault
  | none =>
    rw [fault?_append_of_none hfirst] at hfault
    exact ⟨rfl, hfault, by simp [Doc.run, Written.andThen, hfirst]⟩

/-- What is written inside a scope stands between its opening and its closing text, if
nothing stops. -/
theorem text_within_of_ok {scope : Scope}
    (hfault : ((Doc.within scope body).run state).fault? = none) :
    ∃ entered, scope.enter state = .ok entered ∧ (body.run entered.state).fault? = none ∧
      ((Doc.within scope body).run state).text =
        entered.opening ++ (body.run entered.state).text ++ entered.undo.closing := by
  cases henter : scope.enter state with
  | error fault => simp [Doc.run, henter, Written.ofFault] at hfault
  | ok entered =>
    rw [fault?_within henter] at hfault
    obtain ⟨restored, hundo, -⟩ := Scope.exists_undo henter (body.agrees_run entered.state)
    refine ⟨entered, rfl, hfault, ?_⟩
    simp [Doc.run, henter, Written.leave, Written.andThen, Written.ofText, hfault, hundo]

end Writing

section Visits

/-- Going down a path and then further down is going down both. -/
theorem descendant?_append {tree node : Tree} {above : List Nat}
    (hnode : descendant? tree above = some node) (below : List Nat) :
    descendant? tree (above ++ below) = descendant? node below := by
  induction above generalizing tree with
  | nil =>
    obtain rfl : tree = node := Option.some.inj hnode
    rfl
  | cons index above ih =>
    obtain ⟨child, hchild, hrest⟩ := Option.bind_eq_some_iff.1 hnode
    rw [List.cons_append, descendant?, hchild]
    exact ih hrest

/-- What a rule visits, it visits below another node that it renders without a fault, and
what that node writes stands in what the rule writes. -/
theorem Composed.exists_writing {tree : Tree} {scopes : List Scope} {uses : List Use}
    {before after : List Char} {doc : Doc} (hdoc : Composed tree scopes uses before after doc)
    {path : List Nat} {state : State} (hfault : (doc.run state).fault? = none) {visit : Visit}
    (hvisit : visit ∈ doc.visits path state) :
    ∃ below node start, descendant? tree below = some node ∧
      (node ∈ tree.children ∨ ∃ operator ∈ tree.children, node ∈ operator.children) ∧
      visit ∈ (treeDoc node).visits (path ++ below) start ∧
      ((treeDoc node).run start).fault? = none ∧
      textIn start node <:+: (doc.run state).text.toList := by
  induction hdoc generalizing state with
  | @child _ _ index child hchild =>
    exact ⟨[index], child, state, by simp [descendant?, hchild],
      .inl (List.mem_of_getElem? hchild), hvisit, hfault, List.infix_rfl⟩
  | @endpoint _ _ operator child index hoperator hchild =>
    refine ⟨[0, index], child, state, by simp [descendant?, hoperator, hchild],
      .inr ⟨operator, List.mem_of_getElem? hoperator, List.mem_of_getElem? hchild⟩, ?_, hfault,
      List.infix_rfl⟩
    simpa [Doc.visits, childDoc] using hvisit
  | append _ _ ihfirst ihsecond =>
    obtain ⟨hfirst, hsecond, htext⟩ := text_append_of_ok hfault
    rw [Doc.visits, hfirst] at hvisit
    rw [htext, String.toList_append]
    rcases List.mem_append.1 hvisit with hvisit | hvisit
    · obtain ⟨below, node, start, hnode, hplace, hmem, hok, hwritten⟩ := ihfirst hfirst hvisit
      exact ⟨below, node, start, hnode, hplace, hmem, hok,
        hwritten.trans (List.prefix_append _ _).isInfix⟩
    · obtain ⟨below, node, start, hnode, hplace, hmem, hok, hwritten⟩ := ihsecond hsecond hvisit
      exact ⟨below, node, start, hnode, hplace, hmem, hok,
        hwritten.trans (List.suffix_append _ _).isInfix⟩
  | within _ ihbody =>
    obtain ⟨entered, henter, hbody, htext⟩ := text_within_of_ok hfault
    rw [Doc.visits, henter] at hvisit
    rw [htext, String.toList_append, String.toList_append]
    obtain ⟨below, node, start, hnode, hplace, hmem, hok, hwritten⟩ := ihbody [] hbody hvisit
    exact ⟨below, node, start, hnode, hplace, hmem, hok,
      hwritten.trans (List.infix_append _ _ _)⟩
  | unlessSkipping _ ihbody =>
    rw [Doc.visits] at hvisit
    rw [Doc.run] at hfault ⊢
    split at hvisit
    · cases hvisit
    · rename_i hskipping
      rw [if_neg hskipping] at hfault ⊢
      exact ihbody hfault hvisit
  | fewer _ _ ihdoc => exact ihdoc hfault hvisit
  | _ => simp [Doc.visits] at hvisit

/-- A visited node of a tree that is rendered without a fault is rendered without one
itself, in the state of its visit, and what it writes stands in what the tree writes. -/
theorem exists_writing_of_mem_visits (tree : Tree) {path : List Nat} {state : State}
    (hfault : (renderPart tree state).fault? = none) {visit : Visit}
    (hvisit : visit ∈ (treeDoc tree).visits path state) :
    ∃ below node, visit.path = path ++ below ∧ descendant? tree below = some node ∧
      (renderPart node visit.state).fault? = none ∧
      textIn visit.state node <:+: textIn state tree := by
  induction tree using Tree.inductionBelow generalizing path state with
  | step tree hchildren hbelow =>
    rcases List.mem_cons.1 hvisit with rfl | hvisit
    · exact ⟨[], tree, (List.append_nil path).symm, rfl, hfault, List.infix_rfl⟩
    obtain ⟨uses, hrule, -, -⟩ := isComposed_rule tree
    obtain ⟨above, node, start, hnode, hplace, hmem, hok, hwritten⟩ :=
      (hrule []).exists_writing hfault hvisit
    have hinner : ∃ below inner, visit.path = path ++ above ++ below ∧
        descendant? node below = some inner ∧ (renderPart inner visit.state).fault? = none ∧
        textIn visit.state inner <:+: textIn start node := by
      rcases hplace with hchild | ⟨operator, hoperator, hchild⟩
      · exact hchildren node hchild hok hmem
      · exact hbelow operator hoperator node hchild hok hmem
    obtain ⟨below, inner, hpath, hinnerNode, hinnerOk, hinnerText⟩ := hinner
    refine ⟨above ++ below, inner, by rw [hpath, List.append_assoc], ?_, hinnerOk,
      hinnerText.trans hwritten⟩
    rw [descendant?_append hnode, hinnerNode]

end Visits

section Operators

/-- Whether an operator is written in parentheses of its own, around what it writes where
it goes without them. -/
def HasOwnParentheses (state : State) (node : Tree) : Prop :=
  textIn state node = enclosed false (textIn { state with bare := true } node)

instance (state : State) (node : Tree) : Decidable (HasOwnParentheses state node) :=
  inferInstanceAs (Decidable (_ = _))

theorem exists_doc_of_isOperator {node : Tree} (hoperator : isOperator node.kind = true) :
    ∃ body, (view node).doc = .within .operator body := by
  obtain ⟨kind, label, span, children⟩ := node
  cases kind with
  | binary operator => exact ⟨_, rfl⟩
  | conditional => exact ⟨_, rfl⟩
  | _ => cases hoperator

/-- Whether an operator has parentheses makes no difference for what stands in them. -/
theorem exists_inside_of_isOperator {node : Tree} {state : State}
    (hoperator : isOperator node.kind = true) (hfault : (renderPart node state).fault? = none) :
    ∃ inside, ∀ bare, (renderPart node { state with bare := bare }).fault? = none ∧
      textIn { state with bare := bare } node = enclosed bare inside := by
  obtain ⟨body, hbody⟩ := exists_doc_of_isOperator hoperator
  have hrun : ∀ start, renderPart node start = (Doc.within .operator body).run start := by
    intro start
    rw [renderPart, treeDoc, hbody]
    rfl
  rw [hrun, fault?_within rfl] at hfault
  refine ⟨(body.run { state with bare := false }).text.toList, fun bare => ?_⟩
  have hok : ((Doc.within .operator body).run { state with bare := bare }).fault? = none := by
    rw [fault?_within rfl]
    exact hfault
  obtain ⟨entered, henter, -, hwritten⟩ := text_within_of_ok hok
  cases henter
  refine ⟨by rw [hrun, hok], ?_⟩
  rw [textIn, hrun, hwritten]
  cases bare <;> simp [Undo.closing]

theorem textIn_of_isOperator {node : Tree} {state : State}
    (hoperator : isOperator node.kind = true) (hfault : (renderPart node state).fault? = none) :
    textIn state node = enclosed state.bare (textIn { state with bare := true } node) := by
  obtain ⟨inside, hinside⟩ := exists_inside_of_isOperator hoperator hfault
  calc textIn state node
      = enclosed state.bare inside := (hinside state.bare).2
    _ = enclosed state.bare (textIn { state with bare := true } node) := by
        rw [(hinside true).2, enclosed_true]

/-- Parentheses make a text longer. -/
theorem enclosed_eq_enclosed_false_iff {bare : Bool} {text : List Char} :
    enclosed bare text = enclosed false text ↔ bare = false := by
  cases bare with
  | false => simp
  | true =>
    simp only [Bool.true_eq_false, iff_false]
    intro heq
    have hlength := congrArg List.length heq
    simp at hlength
    omega

theorem hasOwnParentheses_iff {node : Tree} {state : State}
    (hoperator : isOperator node.kind = true) (hfault : (renderPart node state).fault? = none) :
    HasOwnParentheses state node ↔ state.bare = false := by
  rw [HasOwnParentheses, textIn_of_isOperator hoperator hfault]
  exact enclosed_eq_enclosed_false_iff

end Operators

section Suppression

variable {edges : List Edge}

/-- Whether a node is a child at a place where operators go without parentheses, of the
node whose rule renders it. -/
def StandsSuppressed (edges : List Edge) : Prop :=
  (ruling edges).getLast?.bind Edge.bare? = some true

instance (edges : List Edge) : Decidable (StandsSuppressed edges) :=
  inferInstanceAs (Decidable (_ = _))

/-- Whether the suppression that one edge sets is still in force further down, past other
edges that neither set nor clear it. -/
def PassesSuppression (edges : List Edge) : Prop :=
  ∃ above edge below, ruling edges = above ++ edge :: below ∧ edge.bare? = some true ∧
    below ≠ [] ∧ ∀ later ∈ below, later.bare? = none

/-- The last edge that the suppression has passed neither sets nor clears it. -/
theorem bare?_getLast?_of_passes (hpasses : PassesSuppression edges) :
    (ruling edges).getLast?.bind Edge.bare? = none := by
  obtain ⟨above, edge, below, hedges, -, hbelow, hlater⟩ := hpasses
  have hlast : (ruling edges).getLast? = below.getLast? := by
    rw [hedges, List.getLast?_append_of_ne_nil _ (List.cons_ne_nil edge below),
      List.getLast?_cons_of_ne_nil hbelow]
  rw [hlast, Option.bind_eq_none_iff]
  exact fun later hmem => hlater later (List.mem_of_getLast? hmem)

theorem not_standsSuppressed_of_passes (hpasses : PassesSuppression edges) :
    ¬ StandsSuppressed edges := by
  rw [StandsSuppressed, bare?_getLast?_of_passes hpasses]
  nofun

/-- The suppression is in force where it is set, and where it has come down to. -/
theorem suppressed_iff :
    ((ruling edges).filterMap Edge.bare?).getLast?.getD false = true ↔
      StandsSuppressed edges ∨ PassesSuppression edges := by
  rw [Option.getD_eq_iff, List.getLast?_filterMap]
  simp only [Bool.false_eq_true, and_false, or_false, List.findSome?_eq_some_iff]
  constructor
  · rintro ⟨below, edge, above, hreverse, hbare, hbelow⟩
    have hedges : ruling edges = above.reverse ++ edge :: below.reverse := by
      rw [← List.reverse_reverse (ruling edges), hreverse]
      simp
    by_cases hnil : below = []
    · subst hnil
      refine .inl (Option.bind_eq_some_iff.2 ⟨edge, ?_, hbare⟩)
      simp [hedges]
    · exact .inr ⟨above.reverse, edge, below.reverse, hedges, hbare, by simpa using hnil,
        by simpa using hbelow⟩
  · rintro (hstands | ⟨above, edge, below, hedges, hbare, -, hbelow⟩)
    · obtain ⟨edge, hlast, hbare⟩ := Option.bind_eq_some_iff.1 hstands
      obtain ⟨above, hedges⟩ := List.getLast?_eq_some_iff.1 hlast
      exact ⟨[], edge, above.reverse, by simp [hedges], hbare, by simp⟩
    · exact ⟨below.reverse, edge, above.reverse, by simp [hedges], hbare, by simpa using hbelow⟩

end Suppression

section Results

/-- A tree that is rendered writes its text without a fault, and then a line feed. -/
theorem textIn_of_renderText {tree : Tree} {text : String} (htext : renderText tree = .ok text) :
    (renderPart tree .initial).fault? = none ∧
      text.toList = textIn .initial tree ++ ['\n'] := by
  have hwhole : ((wholeDoc tree).run .initial).fault? = none ∧
      ((wholeDoc tree).run .initial).text = text := by
    rw [renderText, Written.result, renderTree] at htext
    split at htext
    · cases htext
    · exact ⟨‹_›, Except.ok.inj htext⟩
  obtain ⟨hfault, rfl⟩ := hwhole
  obtain ⟨-, hrest, hreported⟩ := text_append_of_ok hfault
  obtain ⟨htree, -, hwritten⟩ := text_append_of_ok hrest
  refine ⟨htree, ?_⟩
  have hend : ∀ state, ((Doc.seq [Doc.write (some "\n")]).run state).text = "\n" := by
    intro state
    simp [Doc.seq, Doc.run, Written.andThen, Written.ofText]
  have hlast := congrArg String.toList (hreported.trans (congrArg (_ ++ ·) hwritten))
  rw [hend, String.toList_append, String.toList_append] at hlast
  exact hlast

/-- In a tree that is rendered, every operator that is visited is written in parentheses of
its own or stands at a place that suppresses them, exactly unless the suppression has been
set for a node above it and has passed other nodes on the way down.  At a place that
suppresses them it has none.  What is written for the operator stands in the output. -/
theorem operator_parentheses_iff {tree : Tree} {text : String} (htext : renderText tree = .ok text)
    {visit : Visit} (hvisit : visit ∈ treeVisits tree .initial) {node : Tree}
    (hnode : descendant? tree visit.path = some node) (hoperator : isOperator node.kind = true) :
    ∃ edges, edgesTo tree visit.path = some edges ∧
      textIn visit.state node <:+: text.toList ∧
      (HasOwnParentheses visit.state node ∨ StandsSuppressed edges ↔ ¬ PassesSuppression edges) ∧
      (StandsSuppressed edges → ¬ HasOwnParentheses visit.state node) := by
  obtain ⟨hfault, hwhole⟩ := textIn_of_renderText htext
  obtain ⟨below, visited, hpath, hvisited, hok, hwritten⟩ :=
    exists_writing_of_mem_visits tree hfault hvisit
  obtain ⟨others, edges, hothers, hedges, hagrees⟩ := exists_edges_of_mem_visits tree hvisit
  rw [List.nil_append] at hpath hothers
  subst hpath
  obtain rfl : visited = node := Option.some.inj (hvisited.symm.trans hnode)
  have hbare : visit.state.bare = true ↔ StandsSuppressed edges ∨ PassesSuppression edges := by
    rw [hagrees.bare, bare_changeAlong]
    exact suppressed_iff
  have hown : HasOwnParentheses visit.state visited ↔
      ¬(StandsSuppressed edges ∨ PassesSuppression edges) := by
    rw [hasOwnParentheses_iff hoperator hok, ← hbare, Bool.not_eq_true]
  refine ⟨edges, hothers ▸ hedges, ?_, ?_, ?_⟩
  · rw [hwhole]
    exact hwritten.trans (List.prefix_append _ _).isInfix
  · rw [hown]
    constructor
    · rintro (hneither | hstands) hpasses
      · exact hneither (.inr hpasses)
      · exact not_standsSuppressed_of_passes hpasses hstands
    · intro hpasses
      by_cases hstands : StandsSuppressed edges
      · exact .inr hstands
      · exact .inl (not_or.2 ⟨hstands, hpasses⟩)
  · intro hstands howns
    exact hown.1 howns (.inl hstands)

/-- In `x = ( a + b );` the sum stands at no place that suppresses parentheses, and the
suppression set for the assignment does not pass the assignment, so the sum has its own. -/
theorem operator_parentheses_iff_assignment :
    let sum : Tree := .node (.binary .plus) none none [.identifier "a", .identifier "b"]
    let assignment : Tree := .node (.binary .assign) none none [.identifier "x", sum]
    let tree : Tree := .node .statement none none [assignment]
    let visit : Visit := ⟨[0, 1], .initial⟩
    renderText tree = .ok "x = ( a + b );\n\n" ∧ visit ∈ treeVisits tree .initial ∧
      HasOwnParentheses visit.state sum := by
  intro sum assignment tree visit
  have htext : renderText tree = .ok "x = ( a + b );\n\n" := rfl
  have hvisit : visit ∈ treeVisits tree .initial := by decide +kernel
  obtain ⟨edges, hedges, -, hiff, -⟩ :=
    @operator_parentheses_iff tree _ htext visit hvisit sum rfl rfl
  obtain rfl : [⟨tree, 0, assignment⟩, ⟨assignment, 1, sum⟩] = edges := Option.some.inj hedges
  have hlast : (ruling [⟨tree, 0, assignment⟩, ⟨assignment, 1, sum⟩]).getLast?.bind Edge.bare? =
      some false := rfl
  refine ⟨htext, hvisit, (hiff.2 fun hpasses => ?_).resolve_right fun hstands => ?_⟩
  · rw [bare?_getLast?_of_passes hpasses] at hlast
    cases hlast
  · rw [StandsSuppressed, hlast] at hstands
    cases hstands

/-- The size of an array type inside of `sizeof` stands at no place that suppresses
parentheses, and goes without them all the same. -/
theorem array_size_without_parentheses :
    let sum : Tree := .node (.binary .plus) none none [.identifier "a", .identifier "b"]
    let size : Tree := .node .arrayModifier none none [sum]
    let type : Tree := .node .typeName none none [.node (.keyword .int) none none [], size]
    let sizeof : Tree := .node .sizeofType none none [type]
    let tree : Tree := .node .statement none none [sizeof]
    renderText tree = .ok "sizeof( int  [a + b]  );\n\n" ∧
    ¬∀ visit ∈ treeVisits tree .initial, ∀ node edges, descendant? tree visit.path = some node →
      isOperator node.kind = true → edgesTo tree visit.path = some edges →
        HasOwnParentheses visit.state node ∨ StandsSuppressed edges := by
  intro sum size type sizeof tree
  refine ⟨by decide +kernel, fun hall => ?_⟩
  have hvisit : (⟨[0, 0, 1, 0], { State.initial with bare := true }⟩ : Visit) ∈
      treeVisits tree .initial := by decide +kernel
  have hown : ¬ HasOwnParentheses { State.initial with bare := true } sum := by decide +kernel
  have hedges : edgesTo tree [0, 0, 1, 0] =
      some [⟨tree, 0, sizeof⟩, ⟨sizeof, 0, type⟩, ⟨type, 1, size⟩, ⟨size, 0, sum⟩] := rfl
  rcases hall _ hvisit sum _ rfl rfl hedges with howns | hstands
  · exact hown howns
  · revert hstands
    decide

end Results

end NescTree.Render
