import NescTree.Proofs.Tree.Content
import NescTree.Render.Tree

/-!
# Rendering looks at the content alone

Rules see the kinds and texts of nodes and their children, never the place a node
was read from.  So trees of the same content are rendered by the same program.
-/

namespace NescTree.Render

theorem viewParts_map_content {trees : List Tree}
    (hview : ∀ tree ∈ trees, view tree.content = view tree) (index : Nat) :
    viewParts index (trees.map Tree.content) = viewParts index trees := by
  induction trees generalizing index with
  | nil => rfl
  | cons tree trees ih =>
    obtain ⟨hhead, htail⟩ := List.forall_mem_cons.1 hview
    rw [List.map_cons, viewParts, viewParts, hhead, ih htail]

theorem view_content (tree : Tree) : view tree.content = view tree := by
  induction tree using Tree.inductionOn with
  | node kind label span children ih =>
    rw [Tree.content_node, view, view, Tree.textOr_textOr, viewParts_map_content ih]

theorem treeDoc_eq_of_content_eq {tree other : Tree} (hcontent : tree.content = other.content) :
    treeDoc tree = treeDoc other := by
  have hview : view tree = view other := by
    rw [← view_content, hcontent, view_content]
  rw [treeDoc, treeDoc, hview]

/-- Trees of the same content are rendered alike: the same text, records and fault. -/
theorem renderTree_eq_of_content_eq {tree other : Tree}
    (hcontent : tree.content = other.content) : renderTree tree = renderTree other := by
  have hkind : tree.kind = other.kind := by
    rw [← Tree.kind_content, hcontent, Tree.kind_content]
  rw [renderTree, renderTree, wholeDoc, wholeDoc, treeDoc_eq_of_content_eq hcontent, hkind]

theorem renderText_eq_of_content_eq {tree other : Tree}
    (hcontent : tree.content = other.content) : renderText tree = renderText other := by
  rw [renderText, renderText, renderTree_eq_of_content_eq hcontent]

end NescTree.Render
