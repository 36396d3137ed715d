/-!
# Words and operators of nesC

The kinds of tree nodes that come in uniform groups: keywords that stand for
themselves, the four aggregate tags, and the binary and unary operators.  Every
member has a name in tree notation, a number, and a spelling in source code.
-/

namespace NescTree

/-- Tokens that are written as they are, such as specifiers and qualifiers. -/
inductive Keyword where
  | async | auto | call | char | command | const | double | externWord | event | float | inline
  | int | long | norace | post | register | restrict | short | signal | signed | static | task
  | typedef | unsigned | void | volatile | ellipsis
  deriving DecidableEq, Repr

namespace Keyword

def all : List Keyword :=
  [.async, .auto, .call, .char, .command, .const, .double, .externWord, .event, .float,
   .inline, .int, .long, .norace, .post, .register, .restrict, .short, .signal, .signed,
   .static, .task, .typedef, .unsigned, .void, .volatile, .ellipsis]

theorem mem_all (value : Keyword) : value ∈ all := by
  cases value <;> decide

def name : Keyword → String
  | .async => "ASYNC"
  | .auto => "AUTO"
  | .call => "CALL"
  | .char => "CHAR"
  | .command => "COMMAND"
  | .const => "CONST"
  | .double => "DOUBLE"
  | .externWord => "EXTERN"
  | .event => "EVENT"
  | .float => "FLOAT"
  | .inline => "INLINE"
  | .int => "INT"
  | .long => "LONG"
  | .norace => "NORACE"
  | .post => "POST"
  | .register => "REGISTER"
  | .restrict => "RESTRICT"
  | .short => "SHORT"
  | .signal => "SIGNAL"
  | .signed => "SIGNED"
  | .static => "STATIC"
  | .task => "TASK"
  | .typedef => "TYPEDEF"
  | .unsigned => "UNSIGNED"
  | .void => "VOID"
  | .volatile => "VOLATILE"
  | .ellipsis => "ELLIPSIS"

def code : Keyword → Nat
  | .async => 1
  | .auto => 2
  | .call => 3
  | .char => 4
  | .command => 5
  | .const => 6
  | .double => 7
  | .externWord => 8
  | .event => 9
  | .float => 10
  | .inline => 11
  | .int => 12
  | .long => 13
  | .norace => 14
  | .post => 15
  | .register => 16
  | .restrict => 17
  | .short => 18
  | .signal => 19
  | .signed => 20
  | .static => 21
  | .task => 22
  | .typedef => 23
  | .unsigned => 24
  | .void => 25
  | .volatile => 26
  | .ellipsis => 27

def spelling : Keyword → String
  | .async => "async"
  | .auto => "auto"
  | .call => "call"
  | .char => "char"
  | .command => "command"
  | .const => "const"
  | .double => "double"
  | .externWord => "extern"
  | .event => "event"
  | .float => "float"
  | .inline => "inline"
  | .int => "int"
  | .long => "long"
  | .norace => "norace"
  | .post => "post"
  | .register => "register"
  | .restrict => "restrict"
  | .short => "short"
  | .signal => "signal"
  | .signed => "signed"
  | .static => "static"
  | .task => "task"
  | .typedef => "typedef"
  | .unsigned => "unsigned"
  | .void => "void"
  | .volatile => "volatile"
  | .ellipsis => "..."

end Keyword

/-- The tags that open a structure or union type. -/
inductive Aggregate where
  | struct | union | nxStruct | nxUnion
  deriving DecidableEq, Repr

namespace Aggregate

def all : List Aggregate :=
  [.struct, .union, .nxStruct, .nxUnion]

theorem mem_all (value : Aggregate) : value ∈ all := by
  cases value <;> decide

def name : Aggregate → String
  | .struct => "STRUCT"
  | .union => "UNION"
  | .nxStruct => "NX_STRUCT"
  | .nxUnion => "NX_UNION"

def code : Aggregate → Nat
  | .struct => 52
  | .union => 53
  | .nxStruct => 54
  | .nxUnion => 55

def spelling : Aggregate → String
  | .struct => "struct"
  | .union => "union"
  | .nxStruct => "nx_struct"
  | .nxUnion => "nx_union"

end Aggregate

/-- Operators between two operands. -/
inductive BinaryOperator where
  | amp | and | assign | bitAndAssign | bitOr | bitOrAssign | bitXor | bitXorAssign | comma
  | divAssign | divide | equal | greater | greaterEqual | less | lessEqual | shiftLeft
  | shiftLeftAssign | minus | minusAssign | modulus | modAssign | multAssign | notEqual | or
  | plus | plusAssign | shiftRight | shiftRightAssign | star
  deriving DecidableEq, Repr

namespace BinaryOperator

def all : List BinaryOperator :=
  [.amp, .and, .assign, .bitAndAssign, .bitOr, .bitOrAssign, .bitXor, .bitXorAssign, .comma,
   .divAssign, .divide, .equal, .greater, .greaterEqual, .less, .lessEqual, .shiftLeft,
   .shiftLeftAssign, .minus, .minusAssign, .modulus, .modAssign, .multAssign, .notEqual, .or,
   .plus, .plusAssign, .shiftRight, .shiftRightAssign, .star]

theorem mem_all (value : BinaryOperator) : value ∈ all := by
  cases value <;> decide

def name : BinaryOperator → String
  | .amp => "AMP"
  | .and => "AND"
  | .assign => "ASSIGN"
  | .bitAndAssign => "BITANDASSIGN"
  | .bitOr => "BITOR"
  | .bitOrAssign => "BITORASSIGN"
  | .bitXor => "BITXOR"
  | .bitXorAssign => "BITXORASSIGN"
  | .comma => "COMMA"
  | .divAssign => "DIVASSIGN"
  | .divide => "DIVIDE"
  | .equal => "EQUAL"
  | .greater => "GREATER"
  | .greaterEqual => "GREATEREQUAL"
  | .less => "LESS"
  | .lessEqual => "LESSEQUAL"
  | .shiftLeft => "LSHIFT"
  | .shiftLeftAssign => "LSHIFTASSIGN"
  | .minus => "MINUS"
  | .minusAssign => "MINUSASSIGN"
  | .modulus => "MODULUS"
  | .modAssign => "MODASSIGN"
  | .multAssign => "MULTASSIGN"
  | .notEqual => "NOTEQUAL"
  | .or => "OR"
  | .plus => "PLUS"
  | .plusAssign => "PLUSASSIGN"
  | .shiftRight => "RSHIFT"
  | .shiftRightAssign => "RSHIFTASSIGN"
  | .star => "STAR"

def code : BinaryOperator → Nat
  | .amp => 110
  | .and => 111
  | .assign => 112
  | .bitAndAssign => 113
  | .bitOr => 114
  | .bitOrAssign => 115
  | .bitXor => 116
  | .bitXorAssign => 117
  | .comma => 118
  | .divAssign => 119
  | .divide => 120
  | .equal => 121
  | .greater => 122
  | .greaterEqual => 123
  | .less => 124
  | .lessEqual => 125
  | .shiftLeft => 126
  | .shiftLeftAssign => 127
  | .minus => 128
  | .minusAssign => 129
  | .modulus => 130
  | .modAssign => 131
  | .multAssign => 132
  | .notEqual => 133
  | .or => 134
  | .plus => 135
  | .plusAssign => 136
  | .shiftRight => 137
  | .shiftRightAssign => 138
  | .star => 139

def spelling : BinaryOperator → String
  | .amp => "&"
  | .and => "&&"
  | .assign => "="
  | .bitAndAssign => "&="
  | .bitOr => "|"
  | .bitOrAssign => "|="
  | .bitXor => "^"
  | .bitXorAssign => "^="
  | .comma => ","
  | .divAssign => "/="
  | .divide => "/"
  | .equal => "=="
  | .greater => ">"
  | .greaterEqual => ">="
  | .less => "<"
  | .lessEqual => "<="
  | .shiftLeft => "<<"
  | .shiftLeftAssign => "<<="
  | .minus => "-"
  | .minusAssign => "-="
  | .modulus => "%"
  | .modAssign => "%="
  | .multAssign => "*="
  | .notEqual => "!="
  | .or => "||"
  | .plus => "+"
  | .plusAssign => "+="
  | .shiftRight => ">>"
  | .shiftRightAssign => ">>="
  | .star => "*"

end BinaryOperator

/-- Operators written in front of their operand without parentheses of their own. -/
inductive UnaryOperator where
  | preIncrement | preDecrement | addressOf | unaryPlus | unaryMinus | bitComplement | not
  deriving DecidableEq, Repr

namespace UnaryOperator

def all : List UnaryOperator :=
  [.preIncrement, .preDecrement, .addressOf, .unaryPlus, .unaryMinus, .bitComplement, .not]

theorem mem_all (value : UnaryOperator) : value ∈ all := by
  cases value <;> decide

def name : UnaryOperator → String
  | .preIncrement => "PRE_INCREMENT"
  | .preDecrement => "PRE_DECREMENT"
  | .addressOf => "ADDRESS_OF"
  | .unaryPlus => "UNARY_PLUS"
  | .unaryMinus => "UNARY_MINUS"
  | .bitComplement => "BITCOMPLEMENT"
  | .not => "NOT"

def code : UnaryOperator → Nat
  | .preIncrement => 159
  | .preDecrement => 160
  | .addressOf => 161
  | .unaryPlus => 162
  | .unaryMinus => 163
  | .bitComplement => 167
  | .not => 168

/-- The source text of an operator.  It is fixed: nodes of these kinds hold no text by default. -/
def symbol : UnaryOperator → String
  | .preIncrement => "++"
  | .preDecrement => "--"
  | .addressOf => "&"
  | .unaryPlus => "+"
  | .unaryMinus => "-"
  | .bitComplement => "~"
  | .not => "!"

end UnaryOperator

/-- The three clauses in the header of a counting loop. -/
inductive ForClause where
  | initialization | condition | iteration
  deriving DecidableEq, Repr

namespace ForClause

def all : List ForClause :=
  [.initialization, .condition, .iteration]

theorem mem_all (value : ForClause) : value ∈ all := by
  cases value <;> decide

def name : ForClause → String
  | .initialization => "FOR_INITIALIZE"
  | .condition => "FOR_CONDITION"
  | .iteration => "FOR_ITERATION"

def code : ForClause → Nat
  | .initialization => 91
  | .condition => 92
  | .iteration => 93

end ForClause

end NescTree
