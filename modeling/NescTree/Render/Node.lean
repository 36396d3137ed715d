import NescTree.Render.Doc
import NescTree.Tree

/-!
# Nodes as their rules see them

A rule looks at the kind and text of a node, at the kinds and texts of its
children, and uses the programs that render them.  One rule also renders the
children of a child in place of the child itself.
-/

namespace NescTree.Render

/-- A child of a node, with the program that renders it and the programs that
render its own children. -/
structure Part where
  kind : Kind
  text : Option String
  doc : Doc
  inner : List Doc

structure Node where
  kind : Kind
  text : Option String
  parts : List Part

namespace Node

/-- The programs that render the children. -/
def docs (node : Node) : List Doc := node.parts.map Part.doc

/-- Use the child at an index, which has to be there. -/
def withChild (node : Node) (index : Nat) (use : Part → Doc) : Doc :=
  match node.parts[index]? with
  | some part => use part
  | none => .fail .missingChild

def ifChild (node : Node) (index : Nat) (use : Part → Doc) : Doc :=
  match node.parts[index]? with
  | some part => use part
  | none => .nothing

def child (node : Node) (index : Nat) : Doc := node.withChild index Part.doc

def childText (node : Node) (index : Nat) : Doc :=
  node.withChild index fun part => .write part.text

def lastChild (node : Node) : Doc := node.child (node.parts.length - 1)

def all (node : Node) : Doc := .seq node.docs

/-- Render the children from an index on. -/
def allFrom (node : Node) (start : Nat) : Doc := .seq (node.docs.drop start)

def commaSeparated (node : Node) : Doc := .joined ", " node.docs

end Node

end NescTree.Render
