import NescTree.Tree

/-!
# The content of a tree

The content of a tree is what structural comparison looks at: the kinds, texts and
children, with every text filled in and every place forgotten.  Two trees are
structurally equal exactly when their contents are the same tree.
-/

namespace NescTree

namespace Tree

/-- Induction over a tree, with the induction hypothesis for every child. -/
@[elab_as_elim]
theorem inductionOn {motive : Tree → Prop} (tree : Tree)
    (node : ∀ kind label span children, (∀ child ∈ children, motive child) →
      motive (.node kind label span children)) : motive tree :=
  @Tree.rec motive (fun trees => ∀ child ∈ trees, motive child) node (by simp)
    (fun _ _ hhead htail => List.forall_mem_cons.2 ⟨hhead, htail⟩) tree

mutual

/-- Kinds, texts and children of a tree, without the places of its nodes. -/
def content : Tree → Tree
  | .node kind label _ children => .node kind (kind.textOr label) none (contents children)

def contents : List Tree → List Tree
  | [] => []
  | tree :: trees => content tree :: contents trees

end

theorem contents_eq_map (trees : List Tree) : contents trees = trees.map content := by
  induction trees with
  | nil => rfl
  | cons tree trees ih => simp [contents, ih]

theorem content_node (kind : Kind) (label : Option String) (span : Option Span)
    (children : List Tree) :
    content (.node kind label span children) =
      .node kind (kind.textOr label) none (children.map content) := by
  rw [content, contents_eq_map]

@[simp]
theorem kind_content (tree : Tree) : tree.content.kind = tree.kind := by
  cases tree
  rfl

theorem textOr_textOr (kind : Kind) (label : Option String) :
    kind.textOr (kind.textOr label) = kind.textOr label := by
  cases label with
  | some text => rfl
  | none => cases hspelling : kind.spelling? <;> simp [Kind.textOr, hspelling]

/-- Structural comparison of lists compares their members, once it is known that it
compares the contents of trees from the first list. -/
theorem sameAll_eq_true_iff {trees : List Tree}
    (hsame : ∀ tree ∈ trees, ∀ other, same tree other = true ↔ tree.content = other.content)
    (others : List Tree) :
    sameAll trees others = true ↔ trees.map content = others.map content := by
  induction trees generalizing others with
  | nil => cases others <;> simp [sameAll]
  | cons tree trees ih =>
    obtain ⟨hhead, htail⟩ := List.forall_mem_cons.1 hsame
    cases others with
    | nil => simp [sameAll]
    | cons other others => simp [sameAll, hhead other, ih htail others]

/-- Trees are structurally equal exactly when their contents are equal. -/
theorem same_eq_true_iff (tree other : Tree) :
    same tree other = true ↔ tree.content = other.content := by
  induction tree using Tree.inductionOn generalizing other with
  | node kind label span children ih =>
    obtain ⟨otherKind, otherLabel, otherSpan, otherChildren⟩ := other
    rw [content_node, content_node, same, Bool.and_eq_true, Bool.and_eq_true,
      sameAll_eq_true_iff ih]
    simp [Tree.kind, Tree.text, Tree.children, and_assoc]

end Tree

end NescTree
