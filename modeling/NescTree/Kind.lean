import NescTree.Kind.Vocabulary

/-!
# Kinds of tree nodes

The closed set of kinds a node of a nesC syntax tree can have.  A kind names a
grammar construct.  Keywords and operators also have a spelling, which is the
text of a node that is built without one.
-/

namespace NescTree

/-- The grammar construct of a node. -/
inductive Kind where
  | keyword (word : Keyword)
  | aggregate (tag : Aggregate)
  | binary (operator : BinaryOperator)
  | unary (operator : UnaryOperator)
  | forClause (clause : ForClause)
  | rawIdentifier | identifier | constant | stringLiteral | typeName | declaration | enum
  | enumerator | declaratorList | initDeclarator | declarator | initializerList
  | pointerQualifier | arrayModifier | parameterModifier | parameterList | parameter
  | functionDefinition | statement | compound | labeled | caseLabel | defaultLabel | atomic
  | ifElse | switch | whileLoop | doLoop | forLoop | gotoJump | continueJump | breakJump
  | returnJump | conditional | postfixChain | vaArg | argumentList | elementSelection | dot
  | arrow | plusPlus | minusMinus | sizeofType | sizeofExpression | cast | dereference | file
  | lineDirective | interface | componentDefinition | componentKind | configurationWord
  | moduleWord | genericWord | componentParameterList | specification | uses | provides
  | interfaceType | implementation | components | componentDeclaration | componentInstantiation
  | componentArguments | connection | leftArrow | identifierPath | null
  deriving DecidableEq, Repr

inductive Family where
  | declaration | statement | expression | assembly
  deriving DecidableEq, Repr

namespace Kind

/-- The kinds that belong to none of the uniform groups. -/
def singles : List Kind :=
  [.rawIdentifier, .identifier, .constant, .stringLiteral, .typeName, .declaration, .enum,
   .enumerator, .declaratorList, .initDeclarator, .declarator, .initializerList,
   .pointerQualifier, .arrayModifier, .parameterModifier, .parameterList, .parameter,
   .functionDefinition, .statement, .compound, .labeled, .caseLabel, .defaultLabel, .atomic,
   .ifElse, .switch, .whileLoop, .doLoop, .forLoop, .gotoJump, .continueJump, .breakJump,
   .returnJump, .conditional, .postfixChain, .vaArg, .argumentList, .elementSelection, .dot,
   .arrow, .plusPlus, .minusMinus, .sizeofType, .sizeofExpression, .cast, .dereference, .file,
   .lineDirective, .interface, .componentDefinition, .componentKind, .configurationWord,
   .moduleWord, .genericWord, .componentParameterList, .specification, .uses, .provides,
   .interfaceType, .implementation, .components, .componentDeclaration,
   .componentInstantiation, .componentArguments, .connection, .leftArrow, .identifierPath,
   .null]

def all : List Kind :=
  Keyword.all.map .keyword ++ Aggregate.all.map .aggregate ++
    BinaryOperator.all.map .binary ++ UnaryOperator.all.map .unary ++
    ForClause.all.map .forClause ++ singles

def name : Kind → String
  | .keyword word => word.name
  | .aggregate tag => tag.name
  | .binary operator => operator.name
  | .unary operator => operator.name
  | .forClause clause => clause.name
  | .rawIdentifier => "RAW_IDENTIFIER"
  | .identifier => "IDENTIFIER"
  | .constant => "CONSTANT"
  | .stringLiteral => "STRING_LITERAL"
  | .typeName => "TYPE_NAME"
  | .declaration => "DECLARATION"
  | .enum => "ENUM"
  | .enumerator => "ENUMERATOR"
  | .declaratorList => "DECLARATOR_LIST"
  | .initDeclarator => "INIT_DECLARATOR"
  | .declarator => "DECLARATOR"
  | .initializerList => "INITIALIZER_LIST"
  | .pointerQualifier => "POINTER_QUALIFIER"
  | .arrayModifier => "DECLARATOR_ARRAY_MODIFIER"
  | .parameterModifier => "DECLARATOR_PARAMETER_LIST_MODIFIER"
  | .parameterList => "PARAMETER_LIST"
  | .parameter => "PARAMETER"
  | .functionDefinition => "FUNCTION_DEFINITION"
  | .statement => "STATEMENT"
  | .compound => "COMPOUND_STATEMENT"
  | .labeled => "LABELED_STATEMENT"
  | .caseLabel => "CASE"
  | .defaultLabel => "DEFAULT"
  | .atomic => "ATOMIC"
  | .ifElse => "IF"
  | .switch => "SWITCH"
  | .whileLoop => "WHILE"
  | .doLoop => "DO"
  | .forLoop => "FOR"
  | .gotoJump => "GOTO"
  | .continueJump => "CONTINUE"
  | .breakJump => "BREAK"
  | .returnJump => "RETURN"
  | .conditional => "CONDITIONAL"
  | .postfixChain => "POSTFIX_EXPRESSION"
  | .vaArg => "BUILTIN_VA_ARG"
  | .argumentList => "ARGUMENT_LIST"
  | .elementSelection => "ARRAY_ELEMENT_SELECTION"
  | .dot => "DOT"
  | .arrow => "ARROW"
  | .plusPlus => "PLUSPLUS"
  | .minusMinus => "MINUSMINUS"
  | .sizeofType => "SIZEOF_TYPE"
  | .sizeofExpression => "SIZEOF_EXPRESSION"
  | .cast => "CAST"
  | .dereference => "DEREFERENCE"
  | .file => "FILE"
  | .lineDirective => "LINE_DIRECTIVE"
  | .interface => "INTERFACE"
  | .componentDefinition => "COMPONENT_DEFINITION"
  | .componentKind => "COMPONENT_KIND"
  | .configurationWord => "CONFIGURATION"
  | .moduleWord => "MODULE"
  | .genericWord => "GENERIC"
  | .componentParameterList => "COMPONENT_PARAMETER_LIST"
  | .specification => "SPECIFICATION"
  | .uses => "USES"
  | .provides => "PROVIDES"
  | .interfaceType => "INTERFACE_TYPE"
  | .implementation => "IMPLEMENTATION"
  | .components => "COMPONENTS"
  | .componentDeclaration => "COMPONENT_DECLARATION"
  | .componentInstantiation => "COMPONENT_INSTANTIATION"
  | .componentArguments => "COMPONENT_ARGUMENTS"
  | .connection => "CONNECTION"
  | .leftArrow => "LEFTARROW"
  | .identifierPath => "IDENTIFIER_PATH"
  | .null => "NULL"

def code : Kind → Nat
  | .keyword word => word.code
  | .aggregate tag => tag.code
  | .binary operator => operator.code
  | .unary operator => operator.code
  | .forClause clause => clause.code
  | .rawIdentifier => 28
  | .identifier => 40
  | .constant => 41
  | .stringLiteral => 42
  | .typeName => 50
  | .declaration => 51
  | .enum => 56
  | .enumerator => 57
  | .declaratorList => 58
  | .initDeclarator => 59
  | .declarator => 60
  | .initializerList => 61
  | .pointerQualifier => 62
  | .arrayModifier => 63
  | .parameterModifier => 64
  | .parameterList => 65
  | .parameter => 66
  | .functionDefinition => 67
  | .statement => 80
  | .compound => 81
  | .labeled => 82
  | .caseLabel => 83
  | .defaultLabel => 84
  | .atomic => 85
  | .ifElse => 86
  | .switch => 87
  | .whileLoop => 88
  | .doLoop => 89
  | .forLoop => 90
  | .gotoJump => 94
  | .continueJump => 95
  | .breakJump => 96
  | .returnJump => 97
  | .conditional => 150
  | .postfixChain => 151
  | .vaArg => 152
  | .argumentList => 153
  | .elementSelection => 154
  | .dot => 155
  | .arrow => 156
  | .plusPlus => 157
  | .minusMinus => 158
  | .sizeofType => 164
  | .sizeofExpression => 165
  | .cast => 166
  | .dereference => 169
  | .file => 180
  | .lineDirective => 181
  | .interface => 182
  | .componentDefinition => 183
  | .componentKind => 184
  | .configurationWord => 185
  | .moduleWord => 186
  | .genericWord => 187
  | .componentParameterList => 188
  | .specification => 189
  | .uses => 190
  | .provides => 191
  | .interfaceType => 192
  | .implementation => 193
  | .components => 194
  | .componentDeclaration => 195
  | .componentInstantiation => 196
  | .componentArguments => 197
  | .connection => 198
  | .leftArrow => 199
  | .identifierPath => 200
  | .null => 201

/-- The source text of a kind, for kinds that have only one. -/
def spelling? : Kind → Option String
  | .keyword word => some word.spelling
  | .aggregate tag => some tag.spelling
  | .binary operator => some operator.spelling
  | .enum => some "enum"
  | .dot => some "."
  | .arrow => some "->"
  | .plusPlus => some "++"
  | .minusMinus => some "--"
  | .configurationWord => some "configuration"
  | .moduleWord => some "module"
  | .genericWord => some "generic"
  | .leftArrow => some "<-"
  | _ => none

/-- The text of a node: the one it was given, else the spelling of its kind. -/
def textOr (kind : Kind) (label : Option String) : Option String :=
  label <|> kind.spelling?

def ofName? (name : String) : Option Kind :=
  all.find? fun kind => kind.name == name

/-- The family whose rule renders a kind.  The words of a component heading and
the reversed arrow are only inspected by their parents and have none. -/
def family? : Kind → Option Family
  | .keyword _ | .aggregate _ | .rawIdentifier | .typeName | .declaration | .enum |
    .enumerator | .declaratorList | .initDeclarator | .declarator | .initializerList |
    .pointerQualifier | .arrayModifier | .parameterModifier | .parameterList | .parameter |
    .functionDefinition => some .declaration
  | .forClause _ | .statement | .compound | .labeled | .caseLabel | .defaultLabel | .atomic |
    .ifElse | .switch | .whileLoop | .doLoop | .forLoop | .gotoJump | .continueJump |
    .breakJump | .returnJump => some .statement
  | .binary _ | .unary _ | .identifier | .constant | .stringLiteral | .conditional |
    .postfixChain | .vaArg | .argumentList | .elementSelection | .dot | .arrow | .plusPlus |
    .minusMinus | .sizeofType | .sizeofExpression | .cast | .dereference => some .expression
  | .file | .lineDirective | .interface | .componentDefinition | .componentKind |
    .componentParameterList | .specification | .uses | .provides | .interfaceType |
    .implementation | .components | .componentDeclaration | .componentInstantiation |
    .componentArguments | .connection | .identifierPath | .null => some .assembly
  | .configurationWord | .moduleWord | .genericWord | .leftArrow => none

end Kind

end NescTree
