import NescTree.Render.Statement

/-!
# Files, interfaces, components and wiring
-/

namespace NescTree.Render

/-- Children at the top level of a file or implementation, without the contents of
headers. -/
def unskipped (parts : List Part) : Doc :=
  .seq (parts.map fun part =>
    if part.kind = .lineDirective then part.doc else .unlessSkipping part.doc)

/-- An interface that is used or provided, or the definition of one. -/
def interface (node : Node) : Doc :=
  node.withChild 0 fun first =>
    if first.kind = .interfaceType then
      .seq [.margin, "interface ", first.doc,
        node.ifChild 1 fun part => .seq [" as ", part.doc], ";\n"]
    else
      .seq [.margin, "interface ", .write first.text, " ", block (node.allFrom 1)]

/-- The parameter list of a component.  It is the fifth of five children, or the
fourth of four if that is one. -/
def componentParameters (node : Node) : Doc :=
  match node.parts with
  | [_, _, _, fourth] =>
    if fourth.kind = .componentParameterList then fourth.doc else .nothing
  | [_, _, _, _, fifth] => fifth.doc
  | _ => .nothing

/-- A module or configuration: its kind, name, parameters, specification and
implementation. -/
def component (node : Node) : Doc :=
  .seq [node.child 0, node.child 1, componentParameters node, node.child 2,
    node.ifChild 3 fun part => if part.kind = .implementation then part.doc else .nothing]

/-- Wiring between two endpoints.  The first child is the operator with the right
endpoint as its children, the second is the left endpoint. -/
def connection (node : Node) : Doc :=
  node.withChild 0 fun operator =>
    .seq [.margin, node.child 1, " ", .write operator.text, " ", .seq operator.inner, ";\n"]

def assembly (node : Node) : Doc :=
  match node.kind with
  | .file => unskipped node.parts
  | .lineDirective => node.withChild 0 fun part => .directive part.text
  | .interface => interface node
  | .componentDefinition => component node
  | .componentKind => .seq (node.parts.map fun part => .seq [.write part.text, " "])
  | .componentParameterList => .seq ["(", .within .parameters node.commaSeparated, ") "]
  | .specification => .seq [" ", block node.all]
  | .uses => .seq [.margin, "uses ", block node.all]
  | .provides => .seq [.margin, "provides ", block node.all]
  | .interfaceType =>
    .seq [node.childText 0,
      node.ifChild 1 fun _ => .seq ["<", .joined ", " (node.docs.drop 1), ">"]]
  | .implementation => .seq [.margin, "implementation ", block (unskipped node.parts)]
  | .components => .seq [.margin, "components ", node.commaSeparated, ";\n"]
  | .componentDeclaration =>
    .seq [node.child 0,
      if node.parts.length = 2 then .seq [" as ", node.child 1] else .nothing]
  | .componentInstantiation =>
    .seq ["new ", node.child 0, "( ", node.ifChild 1 Part.doc, " )"]
  | .componentArguments => node.commaSeparated
  | .connection => connection node
  | .identifierPath => .joined "." node.docs
  | .null => node.all
  | kind => .fail (.noRule kind)

end NescTree.Render
