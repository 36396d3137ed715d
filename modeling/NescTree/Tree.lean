import NescTree.Fault

/-!
# Syntax trees

A tree is built from one kind of node.  The kind of a node decides what its
children mean; the node itself does not check their number.  A node that is built
without a text takes the spelling of its kind as its text.
-/

namespace NescTree

/-- A node with its kind, the text it was given, the place it was read from, and
its children. -/
inductive Tree where
  | node (kind : Kind) (label : Option String) (span : Option Span) (children : List Tree)
  deriving Repr

namespace Tree

def kind : Tree → Kind
  | .node kind _ _ _ => kind

def span : Tree → Option Span
  | .node _ _ span _ => span

def children : Tree → List Tree
  | .node _ _ _ children => children

def text : Tree → Option String
  | .node kind label _ _ => kind.textOr label

def leaf (kind : Kind) (text : String) (span : Option Span) : Tree :=
  .node kind (some text) span []

def identifier (name : String) : Tree := leaf .identifier name none

def constant (value : String) : Tree := leaf .constant value none

/-- Position of a child, where negative numbers count from the end. -/
def childIndex? (count : Nat) (index : Int) : Option Nat :=
  let position := if index < 0 then index + count else index
  if 0 ≤ position ∧ position < count then some position.toNat else none

def child? (tree : Tree) (index : Int) : Option Tree :=
  (childIndex? tree.children.length index).bind fun position => tree.children[position]?

/-- The child at an index, which has to be there. -/
def childAt (tree : Tree) (index : Int) : Except Fault Tree :=
  if !Size.fitsWord index then .error .indexTooLarge
  else
    match tree.child? index with
    | some child => .ok child
    | none => .error .missingChild

/-- The position where the children from an index on start, where negative numbers
count from the end and numbers out of range are moved into it. -/
def sliceStart (count : Nat) (start : Int) : Nat :=
  if start < 0 then (start + count).toNat else min start.toNat count

mutual

/-- Equality of kinds, texts and children, whatever place the nodes were read
from. -/
def same : Tree → Tree → Bool
  | .node kind label _ children, other =>
    kind == other.kind && kind.textOr label == other.text && sameAll children other.children

def sameAll : List Tree → List Tree → Bool
  | [], [] => true
  | tree :: trees, other :: others => same tree other && sameAll trees others
  | _, _ => false

end

mutual

/-- A node and all its descendants, each before its children. -/
def walk : Tree → List Tree
  | .node kind label span children => .node kind label span children :: walkAll children

def walkAll : List Tree → List Tree
  | [] => []
  | tree :: trees => walk tree ++ walkAll trees

end

mutual

/-- Short form for messages, such as `PLUS[+](IDENTIFIER[a], CONSTANT[1])`. -/
def brief : Tree → String
  | .node kind label _ children =>
    kind.name ++
      (match kind.textOr label with
        | some text => "[" ++ text ++ "]"
        | none => "") ++
      match children with
      | [] => ""
      | _ => "(" ++ briefAll children ++ ")"

def briefAll : List Tree → String
  | [] => ""
  | [tree] => brief tree
  | tree :: next :: trees => brief tree ++ ", " ++ briefAll (next :: trees)

end

end Tree

end NescTree
