import NescTree.Render.Node

/-!
# Statements

Labels are rendered one level shallower than the statement they label.  A
controlled statement is indented by one level, except for a compound statement,
whose braces line up with the construct around it.
-/

namespace NescTree.Render

def topExpression (part : Part) : Doc := .within (.parentheses false) part.doc

/-- The line of a construct up to the statement it controls. -/
def header (keyword : String) (part : Part) : Doc :=
  .seq [.margin, keyword, "( ", topExpression part, " )\n"]

def body (part : Part) : Doc :=
  if part.kind = .compound then part.doc else .within (.indented 1) part.doc

/-- Children between braces, indented by one level. -/
def block (contents : Doc) : Doc :=
  .seq ["\x7b\n", .within (.indented 1) contents, .margin, "\x7d\n"]

def label (contents : List Doc) : Doc :=
  .within (.indented (-1)) (.seq (.margin :: contents))

def statement (node : Node) : Doc :=
  match node.kind with
  | .statement => .seq [.margin, node.ifChild 0 topExpression, ";\n"]
  | .compound => .seq [.margin, block node.all]
  | .labeled => .seq [label [node.childText 0, ":\n"], node.child 1]
  | .caseLabel => .seq [label ["case ", node.child 0, ":\n"], node.child 1]
  | .defaultLabel => .seq [label ["default:\n"], node.child 0]
  | .atomic => .seq [.margin, "atomic\n", node.withChild 0 body]
  | .ifElse =>
    .seq [node.withChild 0 (header "if"), node.withChild 1 body,
      if node.parts.length = 3 then .seq [.margin, "else\n", node.withChild 2 body]
      else .nothing]
  | .switch => .seq [node.withChild 0 (header "switch"), node.withChild 1 body]
  | .whileLoop => .seq [node.withChild 0 (header "while"), node.withChild 1 body]
  | .doLoop =>
    .seq [.margin, "do\n", node.withChild 0 body, .margin, "while( ",
      node.withChild 1 topExpression, ");\n"]
  | .forLoop =>
    .seq [.margin, "for( ", .joined "; " (node.docs.take 3), " )\n", node.withChild 3 body]
  | .forClause _ => node.ifChild 0 topExpression
  | .gotoJump => .seq [.margin, "goto ", node.lastChild, ";\n"]
  | .continueJump => .seq [.margin, "continue;\n"]
  | .breakJump => .seq [.margin, "break;\n"]
  | .returnJump => .seq [.margin, "return ", node.ifChild 0 Part.doc, ";\n"]
  | kind => .fail (.noRule kind)

end NescTree.Render
