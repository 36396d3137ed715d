import NescTree.Render.Tree

/-!
# Visited nodes

Which nodes of a tree are rendered, in which order, and the state each of them is
rendered in.  A node is given by the indices of the children on the way down to it.
-/

namespace NescTree.Render

/-- The rendering of a node, seen at its start. -/
structure Visit where
  path : List Nat
  state : State
  deriving DecidableEq, Repr

/-- The nodes that a program visits before it ends or fails. -/
def Doc.visits (path : List Nat) : Doc → State → List Visit
  | .append first second, state =>
    let written := first.run state
    first.visits path state ++
      if written.fault?.isSome then [] else second.visits path written.state
  | .within scope body, state =>
    match scope.enter state with
    | .error _ => []
    | .ok entered => body.visits path entered.state
  | .unlessSkipping body, state => if state.isSkipping then [] else body.visits path state
  | .descend index body, state => body.visits (path ++ [index]) state
  | .visit body, state => ⟨path, state⟩ :: body.visits path state
  | .nothing, _ | .write _, _ | .margin, _ | .fail _, _ | .directive _, _ | .report _, _ => []

def treeVisits (tree : Tree) (state : State) : List Visit := (treeDoc tree).visits [] state

end NescTree.Render
