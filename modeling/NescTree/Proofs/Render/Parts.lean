import NescTree.Proofs.Tree.Content
import NescTree.Render.Tree

/-!
# The children of a node as its rule sees them

The parts of a node are its children in order, each with the program that renders it
and with its own index.  What holds of all nodes below a node can therefore be carried
from the children to their parts.
-/

namespace NescTree

namespace Tree

@[simp]
theorem kind_node (kind : Kind) (label : Option String) (span : Option Span)
    (children : List Tree) : (node kind label span children).kind = kind := rfl

@[simp]
theorem children_node (kind : Kind) (label : Option String) (span : Option Span)
    (children : List Tree) : (node kind label span children).children = children := rfl

/-- Induction over a tree, with the induction hypothesis for the children and for their
children. -/
@[elab_as_elim]
theorem inductionBelow {motive : Tree → Prop} (tree : Tree)
    (step : ∀ tree, (∀ child ∈ tree.children, motive child) →
      (∀ child ∈ tree.children, ∀ below ∈ child.children, motive below) → motive tree) :
    motive tree := by
  have hboth : motive tree ∧ ∀ child ∈ tree.children, motive child := by
    induction tree using Tree.inductionOn with
    | node kind label span children ih =>
      have hchildren : ∀ child ∈ children, motive child := fun child hchild => (ih child hchild).1
      exact ⟨step _ hchildren fun child hchild => (ih child hchild).2, hchildren⟩
  exact hboth.1

theorem mem_walkAll {trees : List Tree} {node : Tree} :
    node ∈ walkAll trees ↔ ∃ tree ∈ trees, node ∈ tree.walk := by
  induction trees with
  | nil => simp [walkAll]
  | cons tree trees ih => simp [walkAll, ih]

theorem walkAll_eq_flatMap (trees : List Tree) : walkAll trees = trees.flatMap walk := by
  induction trees with
  | nil => rfl
  | cons tree trees ih => rw [walkAll, ih, List.flatMap_cons]

theorem mem_walk_self (tree : Tree) : tree ∈ tree.walk := by
  cases tree
  simp [walk]

/-- What a child holds is held by its parent. -/
theorem mem_walk_of_child {tree child node : Tree} (hchild : child ∈ tree.children)
    (hnode : node ∈ child.walk) : node ∈ tree.walk := by
  obtain ⟨kind, label, span, children⟩ := tree
  simpa [walk, mem_walkAll] using Or.inr ⟨child, hchild, hnode⟩

theorem length_walk_pos (tree : Tree) : 0 < tree.walk.length :=
  List.length_pos_of_mem (mem_walk_self tree)

theorem length_walk_lt_of_child {tree child : Tree} (hchild : child ∈ tree.children) :
    child.walk.length < tree.walk.length := by
  obtain ⟨kind, label, span, children⟩ := tree
  obtain ⟨before, after, rfl⟩ := List.append_of_mem hchild
  simp only [walk, walkAll_eq_flatMap, List.flatMap_append, List.flatMap_cons, List.length_cons,
    List.length_append]
  omega

end Tree

namespace Render

theorem getElem?_viewParts (start : Nat) (trees : List Tree) (index : Nat) :
    (viewParts start trees)[index]? =
      trees[index]?.map fun tree => (view tree).toPart (start + index) := by
  induction trees generalizing start index with
  | nil => rfl
  | cons tree trees ih =>
    cases index with
    | zero => simp [viewParts]
    | succ index => simp [viewParts, ih, Nat.add_right_comm, Nat.add_assoc]

theorem view_eq (tree : Tree) :
    view tree = ⟨tree.kind, tree.text, viewParts 0 tree.children⟩ := by
  cases tree
  rfl

theorem text_view (tree : Tree) : (view tree).text = tree.text := by
  rw [view_eq]

@[simp]
theorem kind_toPart (tree : Tree) (index : Nat) : ((view tree).toPart index).kind = tree.kind := by
  rw [view_eq]
  rfl

@[simp]
theorem text_toPart (tree : Tree) (index : Nat) : ((view tree).toPart index).text = tree.text := by
  rw [view_eq]
  rfl

theorem withChild_of_none {tree : Tree} {index : Nat} (hchild : tree.children[index]? = none)
    (use : Part → Doc) : (view tree).withChild index use = .fail .missingChild := by
  rw [Node.withChild, view_eq, getElem?_viewParts, hchild]
  rfl

theorem withChild_of_some {tree child : Tree} {index : Nat}
    (hchild : tree.children[index]? = some child) (use : Part → Doc) :
    (view tree).withChild index use = use ((view child).toPart index) := by
  rw [Node.withChild, view_eq, getElem?_viewParts, hchild, Nat.zero_add]
  rfl

end Render

end NescTree
