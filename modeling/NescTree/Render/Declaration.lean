import NescTree.Render.Node

/-!
# Declarations and types
-/

namespace NescTree.Render

/-- Specifiers and declarators, with an extra space after the names of defined
types. -/
def specified (node : Node) : Doc :=
  .seq (node.parts.map fun part =>
    if part.kind = .rawIdentifier then .seq [part.doc, " "] else part.doc)

/-- A declarator.  Inside another declarator it is put in parentheses, as in
`int (*p)(int x);`.  A parameter list opens a new scope, so that the declarator of
`x` goes without. -/
def declarator (node : Node) : Doc :=
  .within .nestedDeclarator (.seq (node.docs.map fun doc => .seq [doc, " "]))

/-- The leading name of a type, unless the first child is already a member. -/
def tagName (node : Node) (member : Kind) : Doc :=
  node.ifChild 0 fun part => if part.kind = member then .nothing else .seq [part.doc, " "]

def members (node : Node) (member : Kind) : List Doc :=
  match node.parts with
  | [] => []
  | part :: parts => if part.kind = member then node.docs else parts.map Part.doc

def aggregate (node : Node) : Doc :=
  .seq [.write node.text, " ", tagName node .declaration,
    match members node .declaration with
    | [] => .nothing
    | docs => .seq ["\x7b\n", .within (.indented 1) (.seq docs), .margin, "\x7d "]]

def enumeration (node : Node) : Doc :=
  .seq ["enum ", tagName node .enumerator,
    match members node .enumerator with
    | [] => .nothing
    | docs => .seq ["\x7b ", .joined ", " docs, "\x7d "]]

def declaration (node : Node) : Doc :=
  match node.kind with
  | .keyword _ | .rawIdentifier => .seq [.write node.text, " "]
  | .typeName => .seq (node.docs.map fun doc => .seq [doc, " "])
  | .declaration =>
    .seq [.margin, specified node,
      node.withChild 0 fun part => if part.kind = .functionDefinition then .nothing else ";",
      "\n"]
  | .aggregate _ => aggregate node
  | .enum => enumeration node
  | .enumerator => .seq [node.child 0, node.ifChild 1 fun part => .seq [" = ", part.doc]]
  | .declaratorList => node.commaSeparated
  | .initDeclarator =>
    .seq [node.child 0, node.ifChild 1 fun _ => .seq [" = ", node.allFrom 1]]
  | .declarator => declarator node
  | .initializerList => .seq ["\x7b ", node.commaSeparated, " \x7d"]
  | .pointerQualifier => .seq ["*", node.all]
  | .arrayModifier => .seq ["[", node.ifChild 0 Part.doc, "]"]
  | .parameterModifier => .seq ["( ", node.child 0, " )"]
  | .parameterList => .within .parameters node.commaSeparated
  | .parameter => specified node
  | .functionDefinition =>
    .seq (node.parts.map fun part =>
      if part.kind = .compound then .seq ["\n", part.doc] else part.doc)
  | kind => .fail (.noRule kind)

end NescTree.Render
