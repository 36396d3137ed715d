import NescTree.Render.Node

/-!
# Expressions

Parentheses are written without looking at precedence.  Every binary or conditional
expression is put in parentheses, except for the topmost one of a statement or of
the header of a construct.  Operands are never topmost.
-/

namespace NescTree.Render

/-- An operand, which is never topmost. -/
def operand (part : Part) : Doc := .within (.parentheses true) part.doc

def expression (node : Node) : Doc :=
  match node.kind with
  | .identifier | .constant | .stringLiteral => .write node.text
  | .binary _ =>
    .within .operator (.seq [node.child 0, " ", .write node.text, " ", node.child 1])
  | .conditional =>
    .within .operator (.seq [node.child 0, " ? ", node.child 1, " : ", node.child 2])
  | .unary operator => .seq [operator.symbol, node.withChild 0 operand]
  | .dereference => .seq ["( *", node.withChild 0 operand, " )"]
  | .postfixChain => .within (.parentheses true) node.all
  | .argumentList => .seq ["( ", node.commaSeparated, " )"]
  | .elementSelection => .seq ["[", node.child 0, "]"]
  | .dot | .arrow => .seq [.write node.text, node.child 0]
  | .plusPlus | .minusMinus => .write node.text
  | .sizeofType | .sizeofExpression =>
    .seq ["sizeof( ", .within (.parentheses false) node.all, " )"]
  | .cast =>
    .seq ["(", node.allFrom 1, ")( ", .within (.parentheses false) (node.child 0), " )"]
  | .vaArg =>
    .seq ["__builtin_va_arg(",
      .within (.parentheses true) (.seq [node.child 0, ", ", node.child 1]), ")"]
  | kind => .fail (.noRule kind)

end NescTree.Render
