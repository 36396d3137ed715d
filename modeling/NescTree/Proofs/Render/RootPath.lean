import NescTree.Proofs.Render.Restoration
import NescTree.Proofs.Render.Rules
import NescTree.Render.Visit

/-!
# The state of a visited node

A rule finds a state that depends on the way down to its node and on nothing else:
earlier siblings leave no trace, and each edge on the way contributes its own change.
No node is visited twice.
-/

namespace NescTree.Render

open State

/-- Paths of visits start with the path of the node where rendering started. -/
theorem Doc.prefix_of_mem_visits {doc : Doc} {path : List Nat} {state : State} {visit : Visit}
    (hvisit : visit ∈ doc.visits path state) : path <+: visit.path := by
  induction doc generalizing path state with
  | append first second hfirst hsecond =>
    simp only [visits, List.mem_append] at hvisit
    obtain hvisit | hvisit := hvisit
    · exact hfirst hvisit
    · split at hvisit
      · simp at hvisit
      · exact hsecond hvisit
  | within scope body hbody =>
    rw [visits] at hvisit
    split at hvisit
    · simp at hvisit
    · exact hbody hvisit
  | unlessSkipping body hbody =>
    rw [visits] at hvisit
    split at hvisit
    · simp at hvisit
    · exact hbody hvisit
  | descend index body hbody => exact (List.prefix_append _ _).trans (hbody hvisit)
  | visit body hbody =>
    obtain rfl | hvisit := List.mem_cons.1 hvisit
    · exact List.prefix_rfl
    · exact hbody hvisit
  | _ => simp [visits] at hvisit

section Changes

/-- Entering a scope changes the state as said. -/
theorem Scope.state_enter {scope : Scope} {state : State} {entered : Entered}
    (henter : scope.enter state = .ok entered) : entered.state = scope.change state := by
  cases scope with
  | indented amount | parentheses enabled | operator | parameters =>
    cases henter
    rfl
  | declarator =>
    obtain ⟨counted, hcount, hentered⟩ := bind_eq_ok_iff.1 henter
    cases hentered
    obtain ⟨count, outer, hdeclarators, rfl⟩ := countDeclarators_eq_ok hcount
    simp [Scope.change, hdeclarators]
  | nestedDeclarator =>
    obtain ⟨nested, -, hrest⟩ := bind_eq_ok_iff.1 henter
    obtain ⟨counted, hcount, hentered⟩ := bind_eq_ok_iff.1 hrest
    cases hentered
    obtain ⟨count, outer, hdeclarators, rfl⟩ := countDeclarators_eq_ok hcount
    simp [Scope.change, hdeclarators]

theorem Scope.agrees_change (scope : Scope) {before after : State}
    (hagrees : Agrees before after) : Agrees (scope.change before) (scope.change after) := by
  obtain ⟨hlevel, hbare, hdeclarators⟩ := hagrees
  cases scope <;> constructor <;> simp [Scope.change, hlevel, hbare, hdeclarators]

/-- Entering one more scope inside others. -/
theorem Scope.agrees_enter {scope : Scope} {scopes : List Scope} {base state : State}
    {entered : Entered} (henter : scope.enter state = .ok entered)
    (hstate : Agrees (changeInside scopes base) state) :
    Agrees (changeInside (scopes ++ [scope]) base) entered.state := by
  have hinside : changeInside (scopes ++ [scope]) base =
      scope.change (changeInside scopes base) := by
    simp [changeInside]
  rw [hinside, state_enter henter]
  exact scope.agrees_change hstate

theorem Edge.agrees_change (edge : Edge) {before after : State} (hagrees : Agrees before after) :
    Agrees (edge.change before) (edge.change after) := by
  obtain ⟨hlevel, hbare, hdeclarators⟩ := hagrees
  exact ⟨by simp [Edge.change, hlevel], by simp [Edge.change, hbare],
    by simp [Edge.change, hdeclarators]⟩

theorem agrees_changeAlong (edges : List Edge) {before after : State}
    (hagrees : Agrees before after) :
    Agrees (changeAlong edges before) (changeAlong edges after) := by
  induction edges generalizing before after with
  | nil => exact hagrees
  | cons edge edges ih => exact ih (edge.agrees_change hagrees)

end Changes

section Uses

variable {tree : Tree} {scopes : List Scope} {uses : List Use} {before after : List Char}
variable {doc : Doc} {path : List Nat}

/-- What a rule visits, it visits below a node that it uses, in the state inside the
scopes around that node. -/
theorem Composed.exists_use (hdoc : Composed tree scopes uses before after doc)
    {base state : State} (hstate : Agrees (changeInside scopes base) state) {visit : Visit}
    (hvisit : visit ∈ doc.visits path state) :
    ∃ use ∈ uses, ∃ node start, descendant? tree use.path = some node ∧
      Agrees (changeInside use.scopes base) start ∧
      visit ∈ (treeDoc node).visits (path ++ use.path) start := by
  induction hdoc generalizing state with
  | child hchild =>
    exact ⟨_, List.mem_singleton_self _, _, state, by simp [descendant?, hchild], hstate, hvisit⟩
  | @endpoint _ _ operator child index hoperator hchild =>
    refine ⟨_, List.mem_singleton_self _, child, state, ?_, hstate, ?_⟩
    · simp [descendant?, hoperator, hchild]
    · simpa [Doc.visits, childDoc] using hvisit
  | append _ _ hfirst hsecond =>
    simp only [Doc.visits, List.mem_append] at hvisit
    obtain hvisit | hvisit := hvisit
    · obtain ⟨use, huse, hrest⟩ := hfirst hstate hvisit
      exact ⟨use, List.mem_append_left _ huse, hrest⟩
    · split at hvisit
      · simp at hvisit
      · obtain ⟨use, huse, hrest⟩ := hsecond (hstate.trans (Doc.agrees_run _ _)) hvisit
        exact ⟨use, List.mem_append_right _ huse, hrest⟩
  | within _ hbody =>
    rw [Doc.visits] at hvisit
    split at hvisit
    · simp at hvisit
    · rename_i entered henter
      exact hbody [] (Scope.agrees_enter henter hstate) hvisit
  | unlessSkipping _ hbody =>
    rw [Doc.visits] at hvisit
    split at hvisit
    · simp at hvisit
    · exact hbody hstate hvisit
  | fewer _ hmore hdoc =>
    obtain ⟨use, huse, hrest⟩ := hdoc hstate hvisit
    exact ⟨use, hmore.mem huse, hrest⟩
  | _ => simp [Doc.visits] at hvisit

/-- Visits below nodes that are apart have different paths. -/
theorem Use.Apart.path_ne {first second : Use} (happart : first.Apart second)
    {left right : List Nat} (hleft : path ++ first.path <+: left)
    (hright : path ++ second.path <+: right) : left ≠ right := by
  rintro rfl
  obtain hprefix | hprefix := List.prefix_or_prefix_of_prefix hleft hright
  · exact happart.1 ((List.prefix_append_right_inj path).1 hprefix)
  · exact happart.2 ((List.prefix_append_right_inj path).1 hprefix)

/-- A rule that uses nodes apart from each other visits no node twice. -/
theorem Composed.nodup_visits (hdoc : Composed tree scopes uses before after doc)
    (happart : uses.Pairwise Use.Apart)
    (hchildren : ∀ child ∈ tree.children, ∀ path state,
      (((treeDoc child).visits path state).map Visit.path).Nodup)
    (hbelow : ∀ child ∈ tree.children, ∀ below ∈ child.children, ∀ path state,
      (((treeDoc below).visits path state).map Visit.path).Nodup)
    {base state : State} (hstate : Agrees (changeInside scopes base) state) :
    ((doc.visits path state).map Visit.path).Nodup := by
  induction hdoc generalizing state with
  | child hchild => exact hchildren _ (List.mem_of_getElem? hchild) _ _
  | endpoint hoperator hchild =>
    exact hbelow _ (List.mem_of_getElem? hoperator) _ (List.mem_of_getElem? hchild) _ _
  | @append _ _ _ _ _ _ first _ hfirst hsecond ihfirst ihsecond =>
    obtain ⟨huses, hmore, hcross⟩ := List.pairwise_append.1 happart
    rw [Doc.visits, List.map_append]
    split
    · simpa using ihfirst huses hstate
    · have hmiddle := hstate.trans (first.agrees_run state)
      refine List.nodup_append.2 ⟨ihfirst huses hstate, ihsecond hmore hmiddle, ?_⟩
      simp only [List.mem_map, forall_exists_index, and_imp, forall_apply_eq_imp_iff₂]
      intro visit hvisit later hlater
      obtain ⟨use, huse, _, _, _, _, hunder⟩ := hfirst.exists_use hstate hvisit
      obtain ⟨next, hnext, _, _, _, _, hunderNext⟩ := hsecond.exists_use hmiddle hlater
      exact (hcross use huse next hnext).path_ne (Doc.prefix_of_mem_visits hunder)
        (Doc.prefix_of_mem_visits hunderNext)
  | within _ hbody =>
    rw [Doc.visits]
    split
    · simp
    · rename_i entered henter
      exact hbody [] happart (Scope.agrees_enter henter hstate)
  | unlessSkipping _ hbody =>
    rw [Doc.visits]
    split
    · simp
    · exact hbody happart hstate
  | fewer _ hmore hdoc => exact hdoc (happart.sublist hmore) hstate
  | _ => simp [Doc.visits]

end Uses

section Trees

/-- No node of a tree is visited twice. -/
theorem nodup_treeVisits (tree : Tree) (path : List Nat) (state : State) :
    (((treeDoc tree).visits path state).map Visit.path).Nodup := by
  induction tree using Tree.inductionBelow generalizing path state with
  | step tree hchildren hbelow =>
    obtain ⟨uses, hrule, happart, hfits⟩ := isComposed_rule tree
    have hstart : Agrees (changeInside [] state) state := .refl state
    refine List.nodup_cons.2 ⟨?_, (hrule []).nodup_visits happart hchildren hbelow hstart⟩
    intro hpath
    obtain ⟨visit, hvisit, hsame : visit.path = path⟩ := List.mem_map.1 hpath
    obtain ⟨use, huse, _, _, _, _, hmem⟩ := (hrule []).exists_use hstart hvisit
    have hprefix := Doc.prefix_of_mem_visits hmem
    rw [hsame] at hprefix
    have hlength := hprefix.length_le
    have hnil : use.path = [] := by
      rw [List.length_append] at hlength
      exact List.eq_nil_of_length_eq_zero (by omega)
    simpa [Use.Fits, hnil] using hfits use huse

/-- The state of a visited node is what the edges on the way down to it make of the
state at the start. -/
theorem exists_edges_of_mem_visits (tree : Tree) {path : List Nat} {state : State} {visit : Visit}
    (hvisit : visit ∈ (treeDoc tree).visits path state) :
    ∃ below edges, visit.path = path ++ below ∧ edgesTo tree below = some edges ∧
      Agrees (changeAlong (ruling edges) state) visit.state := by
  induction tree using Tree.inductionBelow generalizing path state with
  | step tree hchildren hbelow =>
    obtain rfl | hvisit := List.mem_cons.1 hvisit
    · exact ⟨[], [], by simp, rfl, .refl state⟩
    obtain ⟨uses, hrule, -, hfits⟩ := isComposed_rule tree
    have hstart : Agrees (changeInside [] state) state := .refl state
    obtain ⟨⟨down, scopes⟩, huse, node, start, hnode, hinside, hmem⟩ :=
      (hrule []).exists_use hstart hvisit
    have hfit := hfits _ huse
    match down with
    | [] => exact hfit.elim
    | [index] =>
      obtain ⟨hoperator, hedge⟩ := hfit
      have hchild : tree.children[index]? = some node := by simpa [descendant?] using hnode
      have hruling : (Edge.mk tree index node).reachesOperator = false := by
        simpa [Edge.reachesOperator] using hoperator
      obtain ⟨below, edges, hpath, hedges, hagrees⟩ :=
        hchildren node (List.mem_of_getElem? hchild) hmem
      refine ⟨index :: below, _, by simpa using hpath, edgesTo_cons hchild hedges, ?_⟩
      rw [ruling_cons_of_not_reachesOperator hruling]
      rw [hedge node hchild state] at hinside
      exact (agrees_changeAlong (ruling edges) hinside).trans hagrees
    | [first, index] =>
      obtain ⟨hkind, hfirst, hscopes⟩ := hfit
      dsimp only at hfirst hscopes
      subst hfirst hscopes
      obtain ⟨operator, hoperator, hrest⟩ := Option.bind_eq_some_iff.1 hnode
      have hchild : operator.children[index]? = some node := by simpa [descendant?] using hrest
      have hruling : (Edge.mk tree 0 operator).reachesOperator = true := by
        simp [Edge.reachesOperator, hkind]
      have hedge : Agrees ((Edge.mk tree 0 operator).change state) state := by
        constructor <;> simp [Edge.change, Edge.levels, Edge.bare?, Edge.countDeclarators, hkind]
      obtain ⟨below, edges, hpath, hedges, hagrees⟩ := hbelow operator
        (List.mem_of_getElem? hoperator) node (List.mem_of_getElem? hchild) hmem
      refine ⟨0 :: index :: below, _, by simpa using hpath,
        edgesTo_cons hoperator (edgesTo_cons hchild hedges), ?_⟩
      rw [ruling_cons_cons hruling]
      exact (agrees_changeAlong (ruling edges) (hedge.trans hinside)).trans hagrees
    | _ :: _ :: _ :: _ => exact hfit.elim

end Trees

/-- Whatever the starting state, no node is visited twice, and the state of a visited
node is given by the edges on the way down to it: each adds its levels of indentation,
the lowest one that sets or clears the suppression of parentheses decides, and each
counts the declarators that it opens.  Below the operator of a wiring, which is not
rendered itself, an edge to an endpoint changes nothing. -/
theorem visited_state_of_edges (tree : Tree) (state : State) :
    ((treeVisits tree state).map Visit.path).Nodup ∧
    ∀ visit ∈ treeVisits tree state, ∃ edges, edgesTo tree visit.path = some edges ∧
      visit.state.level = ((ruling edges).map Edge.levels).foldl (· + ·) state.level ∧
      visit.state.bare = ((ruling edges).filterMap Edge.bare?).getLast?.getD state.bare ∧
      visit.state.declarators = (ruling edges).foldl
        (fun declarators edge => edge.countDeclarators declarators) state.declarators := by
  refine ⟨nodup_treeVisits tree [] state, fun visit hvisit => ?_⟩
  obtain ⟨below, edges, hpath, hedges, hagrees⟩ := exists_edges_of_mem_visits tree hvisit
  rw [List.nil_append] at hpath
  refine ⟨edges, hpath ▸ hedges, ?_, ?_, ?_⟩
  · rw [hagrees.level, level_changeAlong]
  · rw [hagrees.bare, bare_changeAlong]
  · rw [hagrees.declarators, declarators_changeAlong]

/-- Not all edges count: a statement below an operator that is a compound statement starts
at the level of the wiring, not one deeper. -/
theorem operator_edge_adds_no_level :
    let wiring : Tree := .node .connection none none
      [.node .compound (some "->") none [.node .statement none none [.identifier "b"]],
        .identifier "a"]
    renderText wiring = .ok "a -> b;\n;\n\n" ∧
    ¬∀ visit ∈ treeVisits wiring .initial, ∀ edges, edgesTo wiring visit.path = some edges →
      visit.state.level = (edges.map Edge.levels).foldl (· + ·) State.initial.level := by
  intro wiring
  refine ⟨rfl, fun hlevels => ?_⟩
  have hstatement : (⟨[0, 0], .initial⟩ : Visit) ∈ treeVisits wiring .initial := by
    decide +kernel
  exact absurd (hlevels _ hstatement _ rfl) (by decide +kernel)

end NescTree.Render
