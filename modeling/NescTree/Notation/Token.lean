import NescTree.Notation.Piece

/-!
# Tokens

The pieces of a text that carry meaning, with the place they stand at.  Rows are
counted by line feeds alone, columns by characters.
-/

namespace NescTree.Notation

inductive TokenType where
  | opening | closing | word | string | finish
  deriving DecidableEq, Repr

def TokenType.name : TokenType → String
  | .opening => "("
  | .closing => ")"
  | .word => "word"
  | .string => "string"
  | .finish => "EOF"

structure Token where
  type : TokenType
  value : String
  span : Span
  deriving DecidableEq, Repr

def describeToken (type value : String) (location : Location) : String :=
  "Token(" ++ type ++ ", " ++ value ++ ", " ++ location.brief ++ ")"

def Token.brief (source : Source) (token : Token) : String :=
  describeToken token.type.name token.value (source.locate token.span)

/-- A place between two characters, counted from one. -/
structure Position where
  row : Nat
  col : Nat
  deriving DecidableEq, Repr

namespace Position

def start : Position := ⟨1, 1⟩

def step (position : Position) (char : Char) : Position :=
  if char == '\n' then ⟨position.row + 1, 1⟩ else ⟨position.row, position.col + 1⟩

def after (position : Position) (chars : List Char) : Position :=
  chars.foldl step position

def span (position : Position) (length : Nat) : Span :=
  ⟨position.row, position.col, length⟩

end Position

/-- The type of the token that a piece is, if it is one. -/
def Piece.tokenType? : Piece → Option TokenType
  | .opening => some .opening
  | .closing => some .closing
  | .word _ => some .word
  | .string _ => some .string
  | .gap _ | .comment _ | .unclosed _ => none

/-- The tokens among the pieces of a text that starts at a position. -/
def tokensFrom (position : Position) : List Piece → List Token
  | [] => []
  | piece :: rest =>
    let remaining := tokensFrom (position.after piece.chars) rest
    match piece.tokenType? with
    | some type =>
      ⟨type, String.ofList piece.chars, position.span piece.chars.length⟩ :: remaining
    | none => remaining

def Piece.isUnclosed : Piece → Bool
  | .unclosed _ => true
  | _ => false

/-- The place of the end of a text: the start of the row after its last line
feed. -/
def endSpan (text : List Char) : Span :=
  ⟨text.count '\n' + 1, 1, 1⟩

def endToken (text : List Char) : Token :=
  ⟨.finish, "EOF", endSpan text⟩

/-- Tokens that are handed out one by one.  After them comes a fault, once, if the
text is broken there. -/
structure TokenStream where
  tokens : List Token
  fault? : Option Fault
  deriving Repr

/-- The tokens of a text.  The last one marks the end, unless the text ends inside
a string. -/
def tokenize (name : Option String) (text : String) : TokenStream :=
  let chars := text.toList
  let parts := pieces chars
  let tokens := tokensFrom .start parts
  if parts.any Piece.isUnclosed then
    let source : Source := ⟨name, some text⟩
    ⟨tokens, some (.malformed .unterminated (source.locate (endSpan chars)))⟩
  else ⟨tokens ++ [endToken chars], none⟩

end NescTree.Notation
