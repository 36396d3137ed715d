import NescTree.Render.Tree

/-!
# Edges of a tree and what they change

The way from the root of a tree down to a node is a sequence of edges.  An edge may
change the indentation, set or clear the suppression of parentheses, or count a
declarator, depending on the kind of the parent and on the place of the child.
-/

namespace NescTree.Render

/-- The step from a node down to one of its children. -/
structure Edge where
  parent : Tree
  index : Nat
  child : Tree

def descendant? : Tree → List Nat → Option Tree
  | tree, [] => some tree
  | tree, index :: path => do descendant? (← tree.children[index]?) path

def edgesTo : Tree → List Nat → Option (List Edge)
  | _, [] => some []
  | tree, index :: path => do
    let child ← tree.children[index]?
    let edges ← edgesTo child path
    return ⟨tree, index, child⟩ :: edges

namespace Edge

/-- The indentation of a controlled statement.  A compound statement lines up its braces
with the construct that controls it. -/
def controlLevels (edge : Edge) : Int :=
  if edge.child.kind = .compound then 0 else 1

def levels (edge : Edge) : Int :=
  match edge.parent.kind with
  | .compound | .specification | .uses | .provides | .implementation => 1
  | .interface =>
    if edge.index = 0 ∨ edge.parent.children.head?.map Tree.kind = some .interfaceType then 0
    else 1
  | .aggregate _ => if edge.index = 0 ∧ edge.child.kind ≠ .declaration then 0 else 1
  | .atomic | .doLoop => if edge.index = 0 then edge.controlLevels else 0
  | .switch | .whileLoop => if edge.index = 1 then edge.controlLevels else 0
  | .ifElse => if edge.index = 1 ∨ edge.index = 2 then edge.controlLevels else 0
  | .forLoop => if edge.index = 3 then edge.controlLevels else 0
  | .caseLabel => if edge.index = 0 then -1 else 0
  | _ => 0

def bare? (edge : Edge) : Option Bool :=
  match edge.parent.kind with
  | .statement | .forClause _ | .ifElse | .switch | .whileLoop | .cast =>
    if edge.index = 0 then some true else none
  | .doLoop => if edge.index = 1 then some true else none
  | .sizeofType | .sizeofExpression => some true
  | .binary _ | .conditional | .unary _ | .dereference | .postfixChain | .vaArg => some false
  | _ => none

/-- What an edge makes of the numbers of open declarators, innermost parameter list
first. -/
def countDeclarators (edge : Edge) (declarators : List Int) : List Int :=
  match edge.parent.kind with
  | .parameterList | .componentParameterList => 0 :: declarators
  | .declarator => declarators.modifyHead (· + 1)
  | _ => declarators

/-- The state below an edge, but for the skipping of headers. -/
def change (edge : Edge) (state : State) : State :=
  { state with
    level := state.level + edge.levels
    bare := edge.bare?.getD state.bare
    declarators := edge.countDeclarators state.declarators }

/-- Whether an edge leads to the operator of a wiring, which is not rendered itself. -/
def reachesOperator (edge : Edge) : Bool :=
  edge.parent.kind = .connection && edge.index = 0

end Edge

/-- The edges whose parent is rendered by its own rule.  The endpoints below the operator
of a wiring are rendered by the rule of the wiring. -/
def ruling : List Edge → List Edge
  | [] => []
  | [edge] => [edge]
  | edge :: next :: edges =>
    if edge.reachesOperator then edge :: ruling edges else edge :: ruling (next :: edges)

def changeAlong (edges : List Edge) (state : State) : State :=
  edges.foldl (fun state edge => edge.change state) state

section ChangeAlong

theorem changeAlong_cons (edge : Edge) (edges : List Edge) (state : State) :
    changeAlong (edge :: edges) state = changeAlong edges (edge.change state) := rfl

theorem level_changeAlong (edges : List Edge) (state : State) :
    (changeAlong edges state).level = (edges.map Edge.levels).foldl (· + ·) state.level := by
  induction edges generalizing state with
  | nil => rfl
  | cons edge edges ih => exact ih (edge.change state)

/-- The lowest edge that sets or clears the suppression of parentheses decides. -/
theorem bare_changeAlong (edges : List Edge) (state : State) :
    (changeAlong edges state).bare = (edges.filterMap Edge.bare?).getLast?.getD state.bare := by
  induction edges generalizing state with
  | nil => rfl
  | cons edge edges ih =>
    rw [changeAlong_cons, ih, List.filterMap_cons, Edge.change]
    cases edge.bare? with
    | none => rfl
    | some bare => simp only [Option.getD_some, List.getLast?_cons]

theorem declarators_changeAlong (edges : List Edge) (state : State) :
    (changeAlong edges state).declarators =
      edges.foldl (fun declarators edge => edge.countDeclarators declarators)
        state.declarators := by
  induction edges generalizing state with
  | nil => rfl
  | cons edge edges ih => exact ih (edge.change state)

end ChangeAlong

theorem ruling_cons_of_not_reachesOperator {edge : Edge} (hedge : edge.reachesOperator = false)
    (edges : List Edge) : ruling (edge :: edges) = edge :: ruling edges := by
  cases edges with
  | nil => rfl
  | cons next edges => simp [ruling, hedge]

theorem ruling_cons_cons {edge : Edge} (hedge : edge.reachesOperator = true) (next : Edge)
    (edges : List Edge) : ruling (edge :: next :: edges) = edge :: ruling edges := by
  simp [ruling, hedge]

theorem edgesTo_cons {tree child : Tree} {index : Nat} (hchild : tree.children[index]? = some child)
    {path : List Nat} {edges : List Edge} (hedges : edgesTo child path = some edges) :
    edgesTo tree (index :: path) = some (⟨tree, index, child⟩ :: edges) := by
  simp [edgesTo, hchild, hedges]

theorem length_edgesTo {tree : Tree} {path : List Nat} {edges : List Edge}
    (hedges : edgesTo tree path = some edges) : edges.length = path.length := by
  induction path generalizing tree edges with
  | nil =>
    obtain rfl : [] = edges := Option.some.inj hedges
    rfl
  | cons index path ih =>
    simp only [edgesTo, Option.bind_eq_bind, Option.bind_eq_some_iff, Option.pure_def,
      Option.some.injEq] at hedges
    obtain ⟨child, -, rest, hrest, rfl⟩ := hedges
    rw [List.length_cons, List.length_cons, ih hrest]

end NescTree.Render
