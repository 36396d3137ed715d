import Mathlib.Data.List.Forall2
import NescTree.Proofs.Render.Edge
import NescTree.Proofs.Render.Parts
import NescTree.Proofs.Text.Brackets

/-!
# How rules put programs together

The rule of a node puts a program together from literal texts, texts of the node and
its children, scopes, and the programs of other nodes.  What is said here of every rule
is said once: it closes the brackets of its literal texts, it renders each of the other
nodes at most once, the scopes around a child change the state as the edge to the child
says, and only the rule of a line directive processes one.
-/

namespace NescTree.Render

open Text

/-- What entering a scope makes of the state, if it can be entered. -/
def Scope.change (scope : Scope) (state : State) : State :=
  match scope with
  | .indented amount => { state with level := state.level + amount }
  | .parentheses enabled => { state with bare := !enabled }
  | .operator => { state with bare := false }
  | .parameters => { state with declarators := 0 :: state.declarators }
  | .declarator | .nestedDeclarator =>
    { state with declarators := state.declarators.modifyHead (· + 1) }

def changeInside (scopes : List Scope) (state : State) : State :=
  scopes.foldl (fun state scope => scope.change state) state

/-- A place where a rule renders another node: the way down to that node, and the
scopes around it, outermost first. -/
structure Use where
  path : List Nat
  scopes : List Scope

namespace Use

/-- Whether neither of two nodes is on the way to the other. -/
def Apart (first second : Use) : Prop :=
  ¬first.path <+: second.path ∧ ¬second.path <+: first.path

/-- Whether a use has its place in the rule of a tree: it renders a child inside scopes
that change the state as the edge to the child does, or an endpoint of a wiring. -/
def Fits (tree : Tree) (use : Use) : Prop :=
  match use.path with
  | [index] => (tree.kind = .connection → index ≠ 0) ∧
    ∀ child, tree.children[index]? = some child →
      ∀ state, changeInside use.scopes state = (Edge.mk tree index child).change state
  | [first, _] => tree.kind = .connection ∧ first = 0 ∧ use.scopes = []
  | _ => False

@[simp]
theorem fits_child {tree : Tree} {index : Nat} {scopes : List Scope} :
    Fits tree ⟨[index], scopes⟩ ↔ (tree.kind = .connection → index ≠ 0) ∧
      ∀ child, tree.children[index]? = some child →
        ∀ state, changeInside scopes state = (Edge.mk tree index child).change state :=
  Iff.rfl

@[simp]
theorem apart_children {first second : Nat} {outer inner : List Scope} :
    Apart ⟨[first], outer⟩ ⟨[second], inner⟩ ↔ first ≠ second := by
  simp [Apart, eq_comm]

end Use

def usesFrom (scopes : List Scope) (start count : Nat) : List Use :=
  (List.range' start count).map fun index => ⟨[index], scopes⟩

section UsesFrom

variable {scopes : List Scope}

@[simp]
theorem forall_mem_usesFrom {start count : Nat} {property : Use → Prop} :
    (∀ use ∈ usesFrom scopes start count, property use) ↔
      ∀ index, start ≤ index → index < start + count → property ⟨[index], scopes⟩ := by
  simp only [usesFrom, List.mem_map, List.mem_range'_1, forall_exists_index, and_imp]
  constructor
  · exact fun huses index hstart hend => huses _ index hstart hend rfl
  · rintro huses _ index hstart hend rfl
    exact huses index hstart hend

@[simp]
theorem pairwise_apart_usesFrom {start count : Nat} :
    (usesFrom scopes start count).Pairwise Use.Apart := by
  rw [usesFrom, List.pairwise_map]
  exact (List.nodup_range' ..).imp Use.apart_children.2

theorem drop_usesFrom (start count dropped : Nat) :
    (usesFrom scopes start count).drop dropped =
      usesFrom scopes (start + dropped) (count - dropped) := by
  simp [usesFrom, ← List.map_drop, List.drop_range']

theorem take_usesFrom (count taken : Nat) :
    (usesFrom scopes 0 count).take taken = usesFrom scopes 0 (min taken count) := by
  simp [usesFrom, ← List.map_take, ← List.range_eq_range', List.take_range]

end UsesFrom

def childDoc (index : Nat) (child : Tree) : Doc := .descend index (treeDoc child)

/-- Whether a program is put together in the rule of a tree, inside some scopes, using
other nodes at most as listed.  The stacks hold the brackets that are to be closed
before and after it. -/
inductive Composed (tree : Tree) :
    List Scope → List Use → List Char → List Char → Doc → Prop where
  | nothing {scopes : List Scope} {stack : List Char} :
      Composed tree scopes [] stack stack .nothing
  | margin {stack : List Char} : Composed tree [] [] stack stack .margin
  | labelMargin {stack : List Char} : Composed tree [.indented (-1)] [] stack stack .margin
  | fail {scopes : List Scope} {stack : List Char} (fault : Fault) :
      Composed tree scopes [] stack stack (.fail fault)
  | report {scopes : List Scope} {stack : List Char} (record : Record) :
      Composed tree scopes [] stack stack (.report record)
  | literal {scopes : List Scope} {before after : List Char} {text : String}
      (hscan : scan before text.toList = some after) :
      Composed tree scopes [] before after (.write (some text))
  | ownText {scopes : List Scope} {stack : List Char} :
      Composed tree scopes [] stack stack (.write tree.text)
  | childText {scopes : List Scope} {stack : List Char} {child : Tree}
      (hchild : child ∈ tree.children) :
      Composed tree scopes [] stack stack (.write child.text)
  /-- Only the rule of a line directive processes one. -/
  | directive {scopes : List Scope} {stack : List Char} {child : Tree}
      (hkind : tree.kind = .lineDirective) (hchild : child ∈ tree.children) :
      Composed tree scopes [] stack stack (.directive child.text)
  | child {scopes : List Scope} {stack : List Char} {index : Nat} {child : Tree}
      (hchild : tree.children[index]? = some child) :
      Composed tree scopes [⟨[index], scopes⟩] stack stack (childDoc index child)
  /-- The rule of a wiring renders the children of its operator in place of the operator. -/
  | endpoint {scopes : List Scope} {stack : List Char} {operator child : Tree} {index : Nat}
      (hoperator : tree.children[0]? = some operator)
      (hchild : operator.children[index]? = some child) :
      Composed tree scopes [⟨[0, index], scopes⟩] stack stack
        (.descend 0 (childDoc index child))
  | append {scopes : List Scope} {uses more : List Use} {before middle after : List Char}
      {first second : Doc} (hfirst : Composed tree scopes uses before middle first)
      (hsecond : Composed tree scopes more middle after second) :
      Composed tree scopes (uses ++ more) before after (.append first second)
  /-- A scope may open a parenthesis, so its body has to be right inside any brackets. -/
  | within {scopes : List Scope} {uses : List Use} {stack : List Char} {scope : Scope}
      {body : Doc}
      (hbody : ∀ inner, Composed tree (scopes ++ [scope]) uses inner inner body) :
      Composed tree scopes uses stack stack (.within scope body)
  | unlessSkipping {scopes : List Scope} {uses : List Use} {stack : List Char} {body : Doc}
      (hbody : Composed tree scopes uses stack stack body) :
      Composed tree scopes uses stack stack (.unlessSkipping body)
  /-- Not all the uses that are listed have to be made. -/
  | fewer {scopes : List Scope} {uses more : List Use} {before after : List Char} {doc : Doc}
      (hdoc : Composed tree scopes uses before after doc) (huses : uses.Sublist more) :
      Composed tree scopes more before after doc

/-- Programs in the rule of a tree, inside some scopes, that use one node each. -/
def ComposedEach (tree : Tree) (scopes : List Scope) : List Use → List Doc → Prop :=
  List.Forall₂ fun use doc => ∀ stack, Composed tree scopes [use] stack stack doc

section Each

variable {tree : Tree} {scopes : List Scope}

/-- What holds of the program of each child, for a range of children. -/
theorem forall₂_viewParts {related : Use → Doc → Prop} {place : Nat → Use}
    {render : Part → Doc} {start : Nat} {trees : List Tree}
    (hrender : ∀ index child, trees[index]? = some child →
      related (place (start + index)) (render ((view child).toPart (start + index)))) :
    List.Forall₂ related ((List.range' start trees.length).map place)
      ((viewParts start trees).map render) := by
  induction trees generalizing start with
  | nil => exact .nil
  | cons child trees ih =>
    refine .cons (hrender 0 child rfl) (ih fun index later hlater => ?_)
    simpa [Nat.add_right_comm, Nat.add_assoc] using hrender (index + 1) later hlater

namespace ComposedEach

theorem each {render : Part → Doc}
    (hrender : ∀ index child, tree.children[index]? = some child → ∀ stack,
      Composed tree scopes [⟨[index], scopes⟩] stack stack (render ((view child).toPart index))) :
    ComposedEach tree scopes (usesFrom scopes 0 tree.children.length)
      ((view tree).parts.map render) := by
  rw [view_eq]
  refine forall₂_viewParts fun index child hchild => ?_
  simpa using hrender index child hchild

theorem docs :
    ComposedEach tree scopes (usesFrom scopes 0 tree.children.length) (view tree).docs :=
  each fun _ _ hchild _ => .child hchild

theorem docsFrom (start : Nat) :
    ComposedEach tree scopes (usesFrom scopes start (tree.children.length - start))
      ((view tree).docs.drop start) := by
  have hdrop := List.forall₂_drop start (@docs tree scopes)
  rw [drop_usesFrom, Nat.zero_add] at hdrop
  exact hdrop

theorem docsUpTo (count : Nat) :
    ComposedEach tree scopes (usesFrom scopes 0 (min count tree.children.length))
      ((view tree).docs.take count) := by
  have htake := List.forall₂_take count (@docs tree scopes)
  rw [take_usesFrom] at htake
  exact htake

end ComposedEach

end Each

namespace Composed

variable {tree : Tree} {scopes : List Scope} {uses more : List Use}
variable {before middle after stack : List Char}

section Sequences

theorem nil : Composed tree scopes [] stack stack (.seq []) := .nothing

theorem cons {doc : Doc} {docs : List Doc} (hdoc : Composed tree scopes uses before middle doc)
    (hdocs : Composed tree scopes more middle after (.seq docs)) :
    Composed tree scopes (uses ++ more) before after (.seq (doc :: docs)) :=
  .append hdoc hdocs

/-- A program that uses no other node, and what follows it. -/
theorem own {doc : Doc} {docs : List Doc} (hdoc : Composed tree scopes [] before middle doc)
    (hdocs : Composed tree scopes uses middle after (.seq docs)) :
    Composed tree scopes uses before after (.seq (doc :: docs)) :=
  .append hdoc hdocs

/-- The last program that uses other nodes, and what follows it. -/
theorem final {doc : Doc} {docs : List Doc} (hdoc : Composed tree scopes uses before middle doc)
    (hdocs : Composed tree scopes [] middle after (.seq docs)) :
    Composed tree scopes uses before after (.seq (doc :: docs)) := by
  have hboth := Composed.append hdoc hdocs
  rwa [List.append_nil] at hboth

/-- A literal text, read with its brackets, and what follows it. -/
theorem lit {text : String} {docs : List Doc} (hscan : scan before text.toList = some middle)
    (hdocs : Composed tree scopes uses middle after (.seq docs)) :
    Composed tree scopes uses before after (.seq (.write (some text) :: docs)) :=
  .own (.literal hscan) hdocs

/-- A program that may be left out. -/
theorem onlyIf {condition : Prop} [Decidable condition] {doc : Doc}
    (hdoc : condition → Composed tree scopes uses stack stack doc) :
    Composed tree scopes uses stack stack (if condition then doc else .nothing) := by
  split
  · exact hdoc ‹_›
  · exact .fewer .nothing (List.nil_sublist uses)

/-- Programs that use one node each, one after the other. -/
theorem seq {docs : List Doc} (hdocs : ComposedEach tree scopes uses docs) :
    Composed tree scopes uses stack stack (.seq docs) := by
  induction hdocs with
  | nil => exact .nil
  | cons hdoc _ ih => exact .cons (hdoc stack) ih

theorem joined {separator : String} (hscan : ∀ stack, scan stack separator.toList = some stack)
    {docs : List Doc} (hdocs : ComposedEach tree scopes uses docs) :
    Composed tree scopes uses stack stack (.joined separator docs) := by
  induction hdocs with
  | nil => exact .nothing
  | cons hdoc hrest ih =>
    cases hrest with
    | nil => exact hdoc stack
    | cons => exact .append (hdoc stack) (.append (.literal (hscan stack)) ih)

/-- Between braces, the indentation is one level deeper. -/
theorem block {contents : Doc}
    (hcontents : ∀ inner, Composed tree [.indented 1] uses inner inner contents) :
    Composed tree [] uses stack stack (block contents) :=
  .lit rfl (.final (.within hcontents) (.own .margin (.lit rfl .nil)))

end Sequences

section Children

theorem withChild {index : Nat} {use : Part → Doc}
    (huse : ∀ child, tree.children[index]? = some child →
      Composed tree scopes uses stack stack (use ((view child).toPart index))) :
    Composed tree scopes uses stack stack ((view tree).withChild index use) := by
  cases hchild : tree.children[index]? with
  | none =>
    rw [withChild_of_none hchild]
    exact .fewer (.fail _) (List.nil_sublist uses)
  | some child =>
    rw [withChild_of_some hchild]
    exact huse child hchild

theorem ifChild {index : Nat} {use : Part → Doc}
    (huse : ∀ child, tree.children[index]? = some child →
      Composed tree scopes uses stack stack (use ((view child).toPart index))) :
    Composed tree scopes uses stack stack ((view tree).ifChild index use) := by
  rw [Node.ifChild, view_eq, getElem?_viewParts, Nat.zero_add]
  cases hchild : tree.children[index]? with
  | none => exact .fewer .nothing (List.nil_sublist uses)
  | some child => exact huse child hchild

theorem childAt (index : Nat) :
    Composed tree scopes [⟨[index], scopes⟩] stack stack ((view tree).child index) :=
  withChild fun _ hchild => .child hchild

theorem childIfAny (index : Nat) :
    Composed tree scopes [⟨[index], scopes⟩] stack stack
      ((view tree).ifChild index Part.doc) :=
  ifChild fun _ hchild => .child hchild

theorem partText {child : Tree} (hchild : child ∈ tree.children) (index : Nat) :
    Composed tree scopes [] stack stack (.write ((view child).toPart index).text) := by
  rw [text_toPart]
  exact .childText hchild

theorem textOfChild (index : Nat) :
    Composed tree scopes [] stack stack ((view tree).childText index) :=
  withChild fun _ hchild => partText (List.mem_of_getElem? hchild) index

theorem all : Composed tree scopes (usesFrom scopes 0 tree.children.length) stack stack
    (view tree).all :=
  .seq .docs

theorem allFrom (start : Nat) :
    Composed tree scopes (usesFrom scopes start (tree.children.length - start)) stack stack
      ((view tree).allFrom start) :=
  .seq (.docsFrom start)

theorem commaSeparated :
    Composed tree scopes (usesFrom scopes 0 tree.children.length) stack stack
      (view tree).commaSeparated :=
  .joined (fun _ => rfl) .docs

end Children

end Composed

/-- Whether a program is put together as the rule of a tree may put it together. -/
def IsComposed (tree : Tree) (doc : Doc) : Prop :=
  ∃ uses, (∀ stack, Composed tree [] uses stack stack doc) ∧
    uses.Pairwise Use.Apart ∧ ∀ use ∈ uses, use.Fits tree

/-- A program that renders no other node. -/
theorem IsComposed.alone {tree : Tree} {doc : Doc}
    (hdoc : ∀ stack, Composed tree [] [] stack stack doc) : IsComposed tree doc :=
  ⟨[], hdoc, .nil, by simp⟩

end NescTree.Render
