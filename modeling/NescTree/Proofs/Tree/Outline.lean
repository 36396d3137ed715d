import Mathlib.Data.List.Basic
import NescTree.Outline
import NescTree.Proofs.Notation.Cutting
import NescTree.Proofs.Notation.KindName
import NescTree.Proofs.Notation.Quoting
import NescTree.Proofs.Render.Parts
import NescTree.Proofs.Text.Runs

/-!
# Outlines determine their trees

An outline is read back in two steps.  Each entry can be told from what follows it, since the
name of a kind ends at a blank and a quoted text ends at its own last quote, whatever line feeds
and further entries the text imitates.  This gives the depths, kinds and texts of all nodes in
the order of a walk.  The nodes below a node are those that follow it and are deeper, up to the
first that is not, so the tree can be built up again from the depths.
-/

namespace NescTree

namespace Tree

mutual

/-- A node and all its descendants with their depths, each before its children. -/
def walkAt (depth : Nat) : Tree → List (Nat × Tree)
  | .node kind label span children =>
    (depth, .node kind label span children) :: walkAllAt (depth + 1) children

def walkAllAt (depth : Nat) : List Tree → List (Nat × Tree)
  | [] => []
  | tree :: trees => walkAt depth tree ++ walkAllAt depth trees

end

theorem walkAllAt_eq_flatMap (depth : Nat) (trees : List Tree) :
    walkAllAt depth trees = trees.flatMap (walkAt depth) := by
  induction trees with
  | nil => rfl
  | cons tree trees ih => rw [walkAllAt, ih, List.flatMap_cons]

theorem walkAt_eq_cons (depth : Nat) (tree : Tree) :
    tree.walkAt depth = (depth, tree) :: tree.children.flatMap (walkAt (depth + 1)) := by
  cases tree
  rw [walkAt, walkAllAt_eq_flatMap]
  rfl

/-- Without the depths it is the walk over the tree. -/
theorem map_snd_walkAt (depth : Nat) (tree : Tree) :
    (tree.walkAt depth).map Prod.snd = tree.walk := by
  induction tree using Tree.inductionOn generalizing depth with
  | node kind label span children ih =>
    rw [walkAt_eq_cons, walk, walkAll_eq_flatMap, List.map_cons, List.map_flatMap]
    apply congrArg (List.cons _)
    apply List.flatMap_congr
    intro child hchild
    exact ih child hchild (depth + 1)

end Tree

namespace Outline

structure Heading where
  depth : Nat
  kind : Kind
  text : Option String
  deriving DecidableEq

def heading (depth : Nat) (tree : Tree) : Heading := ⟨depth, tree.kind, tree.text⟩

def headings (depth : Nat) (tree : Tree) : List Heading :=
  (tree.walkAt depth).map fun (below, node) => heading below node

section Depths

variable {depth : Nat}

theorem headings_eq_cons (depth : Nat) (tree : Tree) :
    headings depth tree =
      heading depth tree :: tree.children.flatMap (headings (depth + 1)) := by
  rw [headings, Tree.walkAt_eq_cons, List.map_cons, List.map_flatMap]
  rfl

theorem le_depth_of_mem_headings {tree : Tree} {entry : Heading}
    (hentry : entry ∈ headings depth tree) : depth ≤ entry.depth := by
  induction tree using Tree.inductionOn generalizing depth with
  | node kind label span children ih =>
    rw [headings_eq_cons, List.mem_cons, List.mem_flatMap] at hentry
    rcases hentry with rfl | ⟨child, hchild, hentry⟩
    · exact le_refl depth
    · have hbelow := ih child hchild hentry
      omega

/-- Whether the first of some nodes, if there is one, is not below a depth. -/
def StartsAbove (depth : Nat) (entries : List Heading) : Prop :=
  ∀ entry ∈ entries.head?, entry.depth ≤ depth

theorem startsAbove_flatMap_headings (depth : Nat) (trees : List Tree) :
    StartsAbove depth (trees.flatMap (headings depth)) := by
  cases trees with
  | nil => simp [StartsAbove]
  | cons tree trees => simp [StartsAbove, headings_eq_cons, heading]

/-- The trees that some nodes make up, where what is below a node follows it directly. -/
def rebuild : List Heading → List Tree
  | [] => []
  | entry :: rest =>
    .node entry.kind entry.text none
        (rebuild (rest.takeWhile fun below => decide (entry.depth < below.depth))) ::
      rebuild (rest.dropWhile fun below => decide (entry.depth < below.depth))
termination_by entries => entries.length
decreasing_by
  · exact Nat.lt_succ_of_le (List.takeWhile_sublist _).length_le
  · exact Nat.lt_succ_of_le (List.dropWhile_sublist _).length_le

/-- Nodes that are all deeper, up to one that is not, are made into the children of the node
before them. -/
theorem rebuild_cons {entry : Heading} {below rest : List Heading}
    (hbelow : ∀ node ∈ below, entry.depth < node.depth) (hrest : StartsAbove entry.depth rest) :
    rebuild (entry :: (below ++ rest)) =
      .node entry.kind entry.text none (rebuild below) :: rebuild rest := by
  let isDeeper : Heading → Bool := fun node => decide (entry.depth < node.depth)
  have hdeeper : ∀ node ∈ below, isDeeper node = true := fun node hnode =>
    decide_eq_true (hbelow node hnode)
  have hends : rest.takeWhile isDeeper = [] ∧ rest.dropWhile isDeeper = rest := by
    cases rest with
    | nil => exact ⟨rfl, rfl⟩
    | cons node rest =>
      have hnode : isDeeper node = false := decide_eq_false (Nat.not_lt.2 (hrest node rfl))
      simp [hnode]
  rw [rebuild, List.takeWhile_append_of_pos hdeeper, List.dropWhile_append_of_pos hdeeper,
    hends.1, hends.2, List.append_nil]

/-- Trees that are each built up again are built up again one after the other. -/
theorem rebuild_flatMap_headings {trees : List Tree}
    (htrees : ∀ tree ∈ trees, ∀ rest, StartsAbove depth rest →
      rebuild (headings depth tree ++ rest) = tree.content :: rebuild rest) :
    rebuild (trees.flatMap (headings depth)) = trees.map Tree.content := by
  induction trees with
  | nil => rw [List.flatMap_nil, rebuild, List.map_nil]
  | cons tree trees ih =>
    obtain ⟨htree, hrest⟩ := List.forall_mem_cons.1 htrees
    rw [List.flatMap_cons, htree _ (startsAbove_flatMap_headings depth trees), ih hrest,
      List.map_cons]

/-- A tree is built up again from its nodes, whatever follows that is not below it. -/
theorem rebuild_headings_append (tree : Tree) {rest : List Heading}
    (hrest : StartsAbove depth rest) :
    rebuild (headings depth tree ++ rest) = tree.content :: rebuild rest := by
  induction tree using Tree.inductionOn generalizing depth rest with
  | node kind label span children ih =>
    have hbelow : ∀ node ∈ children.flatMap (headings (depth + 1)), depth < node.depth := by
      intro node hnode
      obtain ⟨child, -, hchild⟩ := List.mem_flatMap.1 hnode
      exact le_depth_of_mem_headings hchild
    have hchildren : rebuild (children.flatMap (headings (depth + 1))) =
        children.map Tree.content :=
      rebuild_flatMap_headings fun child hchild _ habove => ih child hchild habove
    rw [headings_eq_cons, List.cons_append, Tree.children_node, rebuild_cons hbelow hrest,
      hchildren, Tree.content_node]
    rfl

theorem rebuild_headings (depth : Nat) (tree : Tree) :
    rebuild (headings depth tree) = [tree.content] := by
  have happend := rebuild_headings_append tree (show StartsAbove depth [] by simp [StartsAbove])
  rwa [List.append_nil, rebuild] at happend

/-- Nothing but the content of a tree is shown. -/
theorem headings_content (depth : Nat) (tree : Tree) :
    headings depth tree.content = headings depth tree := by
  induction tree using Tree.inductionOn generalizing depth with
  | node kind label span children ih =>
    have hheading : heading depth (Tree.node kind label span children).content =
        heading depth (Tree.node kind label span children) := by
      rw [Tree.content_node]
      simp [heading, Tree.text, Tree.textOr_textOr]
    rw [headings_eq_cons, headings_eq_cons, hheading, Tree.content_node, Tree.children_node,
      Tree.children_node, List.flatMap_map]
    apply congrArg (List.cons _)
    apply List.flatMap_congr
    intro child hchild
    exact ih child hchild (depth + 1)

end Depths

section Entries

open Notation Text

/-- The text of a node as an entry shows it. -/
def shownText : Option String → List Char
  | some text => ' ' :: (escape text).toList
  | none => []

/-- The entry of a node: spaces for its depth, its kind, and its text if it has one. -/
def Heading.chars (entry : Heading) : List Char :=
  List.replicate (4 * entry.depth) ' ' ++
    (entry.kind.name.toList ++ (shownText entry.text ++ ['\n']))

theorem toList_entry (depth : Nat) (kind : Kind) (text : Option String) :
    (entry depth kind text).toList = Heading.chars ⟨depth, kind, text⟩ := by
  cases text <;> simp [entry, Heading.chars, shownText, spaces]

theorem toList_renderAll {depth : Nat} {trees : List Tree}
    (htrees : ∀ tree ∈ trees, (renderAt depth tree).toList =
      (headings depth tree).flatMap Heading.chars) :
    (renderAll depth trees).toList =
      (trees.flatMap (headings depth)).flatMap Heading.chars := by
  induction trees with
  | nil => rfl
  | cons tree trees ih =>
    obtain ⟨htree, hrest⟩ := List.forall_mem_cons.1 htrees
    rw [renderAll, String.toList_append, htree, ih hrest, List.flatMap_cons, List.flatMap_append]

/-- An outline is the entries of the nodes in order. -/
theorem toList_renderAt (depth : Nat) (tree : Tree) :
    (renderAt depth tree).toList = (headings depth tree).flatMap Heading.chars := by
  induction tree using Tree.inductionOn generalizing depth with
  | node kind label span children ih =>
    have hchildren := toList_renderAll fun child hchild => ih child hchild (depth + 1)
    rw [renderAt, String.toList_append, toList_entry, hchildren, headings_eq_cons,
      List.flatMap_cons]
    rfl

/-- The text of an entry can be told from what follows the entry, although it may hold line
feeds. -/
theorem shownText_append_inj {first second : Option String} {rest otherRest : List Char}
    (heq : shownText first ++ '\n' :: rest = shownText second ++ '\n' :: otherRest) :
    first = second ∧ rest = otherRest := by
  cases first with
  | none =>
    cases second with
    | none => exact ⟨rfl, (List.cons.inj heq).2⟩
    | some text => exact absurd (List.cons.inj heq).1 (by decide)
  | some text =>
    cases second with
    | none => exact absurd (List.cons.inj heq).1 (by decide)
    | some other =>
      obtain ⟨rfl, hrest⟩ := escape_append_inj (List.cons.inj heq).2
      exact ⟨rfl, (List.cons.inj hrest).2⟩

/-- The name of a kind can be told from what follows it in an entry. -/
theorem name_append_inj {first second : Kind} {text other : Option String}
    {rest otherRest : List Char}
    (heq : first.name.toList ++ (shownText text ++ '\n' :: rest) =
      second.name.toList ++ (shownText other ++ '\n' :: otherRest)) :
    first = second ∧ shownText text ++ '\n' :: rest = shownText other ++ '\n' :: otherRest := by
  have hname : ∀ kind : Kind, ∀ char ∈ kind.name.toList, (!isStop char) = true := by
    intro kind char hchar
    rw [not_isStop_of_mem_bareWord kind.isBareWord_name hchar]
    rfl
  have hends : ∀ (text : Option String) (rest : List Char),
      StartsOutside (fun char => !isStop char) (shownText text ++ '\n' :: rest) := by
    intro text rest
    cases text <;> exact startsOutside_cons.2 rfl
  obtain ⟨hnames, hrest⟩ := run_append_inj (hname first) (hname second) (hends text rest)
    (hends other otherRest) heq
  have hkinds := congrArg (fun name => Kind.ofName? (String.ofList name)) hnames
  simp only [String.ofList_toList, Kind.ofName?_name] at hkinds
  exact ⟨Option.some.inj hkinds, hrest⟩

/-- The name of a kind does not start with a space. -/
theorem startsOutside_name (kind : Kind) (rest : List Char) :
    StartsOutside (· == ' ') (kind.name.toList ++ rest) := by
  obtain ⟨first, chars, hname⟩ := List.exists_cons_of_ne_nil (bareWord_ne_nil kind.isBareWord_name)
  have hstop : isStop first = false := by
    apply not_isStop_of_mem_bareWord kind.isBareWord_name
    rw [hname]
    exact List.mem_cons_self
  rw [hname, List.cons_append, startsOutside_cons, beq_eq_false_iff_ne]
  rintro rfl
  exact absurd hstop (by decide)

/-- An entry can be told from what follows it. -/
theorem chars_append_inj {first second : Heading} {rest otherRest : List Char}
    (heq : first.chars ++ rest = second.chars ++ otherRest) :
    first = second ∧ rest = otherRest := by
  obtain ⟨depth, kind, text⟩ := first
  obtain ⟨otherDepth, otherKind, otherText⟩ := second
  have hspaces : ∀ count, ∀ char ∈ List.replicate count ' ', (char == ' ') = true := by
    intro count char hchar
    rw [List.eq_of_mem_replicate hchar]
    rfl
  simp only [Heading.chars, List.append_assoc, List.singleton_append] at heq
  obtain ⟨hdepths, hnames⟩ := run_append_inj (hspaces _) (hspaces _)
    (startsOutside_name kind _) (startsOutside_name otherKind _) heq
  obtain ⟨rfl, htexts⟩ := name_append_inj hnames
  obtain ⟨rfl, hrest⟩ := shownText_append_inj htexts
  have hlengths := congrArg List.length hdepths
  rw [List.length_replicate, List.length_replicate] at hlengths
  obtain rfl : depth = otherDepth := by omega
  exact ⟨rfl, hrest⟩

/-- So the entries of an outline can be told apart. -/
theorem flatMap_chars_injective : Function.Injective (List.flatMap Heading.chars) := by
  have hne : ∀ (entry : Heading) (rest : List Char), entry.chars ++ rest ≠ [] := by
    intro entry rest
    simp [Heading.chars]
  intro left right heq
  induction left generalizing right with
  | nil =>
    cases right with
    | nil => rfl
    | cons entry right => exact absurd heq.symm (hne entry _)
  | cons entry left ih =>
    cases right with
    | nil => exact absurd heq (hne entry _)
    | cons other right =>
      obtain ⟨rfl, hrest⟩ := chars_append_inj heq
      rw [ih hrest]

end Entries

/-- Two trees have the same outline exactly if they are structurally equal.  The outline of a tree
holds an entry for every node in the order of a walk: four spaces for every level of depth, the
kind, the escaped text if there is one, and a line feed. -/
theorem outline_lossless (tree other : Tree) :
    (render tree = render other ↔ tree.same other = true) ∧
    (tree.walkAt 0).map Prod.snd = tree.walk ∧
    (render tree).toList = (tree.walkAt 0).flatMap fun (depth, node) =>
      List.replicate (4 * depth) ' ' ++ (node.kind.name.toList ++
        ((match node.text with
          | some text => ' ' :: (Notation.escape text).toList
          | none => []) ++ ['\n'])) := by
  refine ⟨?_, Tree.map_snd_walkAt 0 tree, ?_⟩
  · rw [Tree.same_eq_true_iff]
    constructor
    · intro heq
      have hchars := congrArg String.toList heq
      rw [render, render, toList_renderAt, toList_renderAt] at hchars
      have hrebuilt := congrArg rebuild (flatMap_chars_injective hchars)
      rw [rebuild_headings, rebuild_headings] at hrebuilt
      exact List.singleton_inj.1 hrebuilt
    · intro hcontent
      apply String.toList_injective
      rw [render, render, toList_renderAt, toList_renderAt, ← headings_content 0 tree, hcontent,
        headings_content]
  · rw [render, toList_renderAt, headings, List.flatMap_map]
    rfl

end Outline

end NescTree
