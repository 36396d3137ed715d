import NescTree.Render.Assembly
import NescTree.Render.Declaration
import NescTree.Render.Expression

/-!
# Rendering trees

The program that renders a tree is put together from the bottom up: the rule of a
node gets the programs of its children.
-/

namespace NescTree.Render

/-- The text of a node that has no rule, which is wrong but visible. -/
def fallback (node : Node) : Doc :=
  .seq [.report ⟨.warning, .printer,
      "No rule to render " ++ node.kind.name ++ ", emitting its text"⟩,
    match node.text with
    | some text => text
    | none => .nothing,
    " "]

/-- The program that renders a node, by the rules of its family. -/
def Node.doc (node : Node) : Doc :=
  match node.kind.family? with
  | some .declaration => declaration node
  | some .statement => statement node
  | some .expression => expression node
  | some .assembly => assembly node
  | none => fallback node

/-- A node as a child at an index. -/
def Node.toPart (node : Node) (index : Nat) : Part :=
  ⟨node.kind, node.text, .descend index (.visit node.doc),
    node.docs.map fun doc => .descend index doc⟩

mutual

/-- A tree as its rule sees it. -/
def view : Tree → Node
  | .node kind label _ children => ⟨kind, kind.textOr label, viewParts 0 children⟩

def viewParts (index : Nat) : List Tree → List Part
  | [] => []
  | tree :: trees => (view tree).toPart index :: viewParts (index + 1) trees

end

def treeDoc (tree : Tree) : Doc := .visit (view tree).doc

def renderPart (tree : Tree) (state : State) (start : LineStart := LineStart.free) : Written :=
  (treeDoc tree).run state start

/-- The program that renders a whole tree, followed by a line feed. -/
def wholeDoc (tree : Tree) : Doc :=
  .seq [.report ⟨.debug, .printer, "Rendering tree rooted at " ++ tree.kind.name⟩,
    treeDoc tree, "\n"]

def renderTree (tree : Tree) : Written := (wholeDoc tree).run .initial

/-- The text of a whole tree, if it can be rendered. -/
def renderText (tree : Tree) : Except Fault String := (renderTree tree).result

end NescTree.Render
