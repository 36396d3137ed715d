import NescTree.Notation.Quoting
import NescTree.Text.Pad
import NescTree.Tree

/-!
# Outlines

An outline shows a tree with one node per entry, indented by depth.  Texts are
quoted, so an outline determines its tree.
-/

namespace NescTree.Outline

def entry (depth : Nat) (kind : Kind) (text : Option String) : String :=
  Text.spaces (4 * depth) ++ kind.name ++
    (match text with
      | some text => " " ++ Notation.escape text
      | none => "") ++ "\n"

mutual

def renderAt (depth : Nat) : Tree → String
  | .node kind label _ children =>
    entry depth kind (kind.textOr label) ++ renderAll (depth + 1) children

def renderAll (depth : Nat) : List Tree → String
  | [] => ""
  | tree :: trees => renderAt depth tree ++ renderAll depth trees

end

def render (tree : Tree) : String :=
  renderAt 0 tree

end NescTree.Outline
