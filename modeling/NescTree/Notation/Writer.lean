import NescTree.Notation.Quoting
import NescTree.Notation.Word
import NescTree.Tree

/-!
# Writing trees

A tree is written on one line, either in full, with every node in parentheses, or
in compact form, where leaves are shortened to words and strings that read back
as the same leaves.
-/

namespace NescTree.Notation

/-- The text of a node, if it has to be written: it is there, and differs from
the spelling of the kind. -/
def writtenText? (kind : Kind) (label : Option String) : Option String :=
  (kind.textOr label).filter fun text => kind.spelling? != some text

/-- The kind of a node and its text, as they open a list. -/
def heading (kind : Kind) (label : Option String) : String :=
  match writtenText? kind label with
  | some text => kind.name ++ " " ++ escape text
  | none => kind.name

mutual

/-- Full form, such as `(PLUS (IDENTIFIER "a") (CONSTANT "1"))`. -/
def full : Tree → String
  | .node kind label _ children => "(" ++ heading kind label ++ fullChildren children ++ ")"

def fullChildren : List Tree → String
  | [] => ""
  | child :: children => " " ++ full child ++ fullChildren children

end

def isIdentifierWord (word : String) : Except Fault Bool :=
  if isBareWord word.toList && (Kind.ofName? word).isNone then
    (looksConstant word.toList).map not
  else .ok false

def isConstantWord (word : String) : Except Fault Bool :=
  if isBareWord word.toList then looksConstant word.toList else .ok false

/-- The short form of a childless node, if it has one.  A string directly after
the kind of its parent would be read as the text of the parent. -/
def shortForm? (afterKind : Bool) (kind : Kind) (text : Option String) :
    Except Fault (Option String) :=
  match kind, text with
  | .identifier, some word =>
    (isIdentifierWord word).map fun short => if short then some word else none
  | .identifier, none => .ok none
  | .constant, some word =>
    (isConstantWord word).map fun short => if short then some word else none
  | .constant, none => .ok none
  | .stringLiteral, some string =>
    .ok (if !afterKind && isRawString string.toList then some string else none)
  | .stringLiteral, none => if afterKind then .ok none else .error .unmeasuredLiteral
  | _, _ => .ok (if text = kind.spelling? then some kind.name else none)

mutual

/-- Compact form of a node that may stand directly after the kind of its parent. -/
def compactAt (afterKind : Bool) : Tree → Except Fault String
  | .node kind label _ [] => do
    match ← shortForm? afterKind kind (kind.textOr label) with
    | some short => return short
    | none => return "(" ++ heading kind label ++ ")"
  | .node kind label _ (child :: children) => do
    let first ← compactAt (writtenText? kind label).isNone child
    let others ← compactChildren children
    return "(" ++ heading kind label ++ " " ++ first ++ others ++ ")"

def compactChildren : List Tree → Except Fault String
  | [] => .ok ""
  | child :: children => do
    let written ← compactAt false child
    let others ← compactChildren children
    return " " ++ written ++ others

end

/-- Compact form, such as `(PLUS a 1)`. -/
def compact (tree : Tree) : Except Fault String :=
  compactAt false tree

end NescTree.Notation
