import NescTree.Log
import NescTree.Notation.Quoting
import NescTree.Notation.Token
import NescTree.Tree

/-!
# Reading trees

Trees are read token by token, with one token of lookahead.  What has been read of
the lists that are still open is kept on a stack, so that reading is a single
pass over the tokens: in every situation the current token is either refused
where it stands, or taken together with the step to the next one.
-/

namespace NescTree.Notation

/-- A place in a stream of tokens.  There is no current token when not even the
first one could be read. -/
structure Cursor where
  source : Source
  current : Option Token
  upcoming : List Token
  fault? : Option Fault
  deriving Repr

/-- The result of an action on a cursor, and where it leaves the cursor, which
also matters after a failure. -/
structure Outcome (α : Type) where
  result : Except Fault α
  cursor : Cursor

namespace Cursor

/-- Fetch the token after the current one.  A fault at the end of the stream comes
up once; after that the stream is exhausted. -/
def advance (cursor : Cursor) : Outcome Unit :=
  match cursor.upcoming with
  | token :: rest => ⟨.ok (), { cursor with current := some token, upcoming := rest }⟩
  | [] => ⟨.error (cursor.fault?.getD .exhausted), { cursor with fault? := none }⟩

def start (source : Source) (stream : TokenStream) : Outcome Unit :=
  advance ⟨source, none, stream.tokens, stream.fault?⟩

def peek (cursor : Cursor) : Except Fault Token :=
  match cursor.current with
  | some token => .ok token
  | none => .error (.noToken "typ")

def complain (cursor : Cursor) (message : String) : Fault :=
  match cursor.current with
  | some token => .malformed (.stated message) (cursor.source.locate token.span)
  | none => .noToken "loc"

/-- Take the current token.  The token at the end stays where it is. -/
def next (cursor : Cursor) : Outcome Token :=
  match cursor.current with
  | none => ⟨.error (.noToken "typ"), cursor⟩
  | some token =>
    if token.type = .finish then ⟨.ok token, cursor⟩
    else
      let moved := cursor.advance
      ⟨moved.result.map fun _ => token, moved.cursor⟩

/-- Take the current token, which has to be of the given type. -/
def consume (cursor : Cursor) (wanted : String) : Outcome Token :=
  match cursor.current with
  | none => ⟨.error (.noToken "typ"), cursor⟩
  | some token =>
    if token.type.name = wanted then cursor.next
    else
      ⟨.error (.malformed (.expected wanted token.type.name)
        (cursor.source.locate token.span)), cursor⟩

end Cursor

/-- The tree that a word denotes as a child: a node of the kind it names, a
constant, or an identifier. -/
def wordTree (word : String) (span : Span) : Except Fault Tree :=
  match Kind.ofName? word with
  | some kind => .ok (.node kind none span [])
  | none =>
    (looksConstant word.toList).map fun constant =>
      .leaf (if constant then .constant else .identifier) word span

/-- A list that is still open, with its children so far in reverse order. -/
structure Frame where
  kind : Kind
  label : Option String
  span : Span
  reversed : List Tree
  /-- Whether nothing has followed the kind yet, so that a string is its text. -/
  fresh : Bool
  deriving Repr

namespace Frame

def opened (kind : Kind) (span : Span) : Frame := ⟨kind, none, span, [], true⟩

def withChild (frame : Frame) (child : Tree) : Frame :=
  { frame with reversed := child :: frame.reversed, fresh := false }

def closed (frame : Frame) : Tree :=
  .node frame.kind frame.label frame.span frame.reversed.reverse

end Frame

/-- What has been read before the current token. -/
inductive Situation where
  /-- All lists are closed.  The trees are in reverse order. -/
  | between (reversed : List Tree)
  /-- A parenthesis was just opened inside the given lists, innermost first. -/
  | opened (outer : List Frame) (reversed : List Tree)
  /-- The kind of the innermost list is known. -/
  | inside (frame : Frame) (outer : List Frame) (reversed : List Tree)
  deriving Repr

namespace Situation

/-- The fault of a token that cannot stand in a situation.  It is found before the
token after it is looked at. -/
def refusal? (source : Source) (situation : Situation) (token : Token) : Option Fault :=
  let location := source.locate token.span
  match situation, token.type with
  | .between _, .opening => none
  | .between _, type => some (.malformed (.expected "(" type.name) location)
  | .opened _ _, .word => none
  | .opened _ _, _ => some (.malformed .expectedKind location)
  | .inside _ _ _, .finish => some (.malformed .endOfFile location)
  | .inside _ _ _, _ => none

/-- Close a list: it becomes a child of the list around it, or a tree of its own. -/
def close (frame : Frame) (outer : List Frame) (reversed : List Tree) : Situation :=
  match outer with
  | [] => .between (frame.closed :: reversed)
  | parent :: rest => .inside (parent.withChild frame.closed) rest reversed

/-- The situation after a token that was not refused. -/
def take (source : Source) (situation : Situation) (token : Token) : Except Fault Situation :=
  match situation with
  | .between reversed => .ok (.opened [] reversed)
  | .opened outer reversed =>
    match Kind.ofName? token.value with
    | some kind => .ok (.inside (.opened kind token.span) outer reversed)
    | none => .error (.malformed (.unknownKind token.value) (source.locate token.span))
  | .inside frame outer reversed =>
    match token.type with
    | .opening => .ok (.opened (frame :: outer) reversed)
    | .closing => .ok (close frame outer reversed)
    | .string =>
      if frame.fresh then
        (unescape token.value).map fun text =>
          .inside { frame with label := some text, fresh := false } outer reversed
      else
        .ok (.inside (frame.withChild (.leaf .stringLiteral token.value token.span))
          outer reversed)
    | .word =>
      (wordTree token.value token.span).map fun child =>
        .inside (frame.withChild child) outer reversed
    | .finish => .ok situation

end Situation

/-- Take tokens until the goal is reached. -/
def drive (goal : Situation → Token → Bool) (source : Source) (fault? : Option Fault)
    (situation : Situation) (token : Token) (upcoming : List Token) : Outcome Situation :=
  let here : Cursor := ⟨source, some token, upcoming, fault?⟩
  if goal situation token then ⟨.ok situation, here⟩
  else
    match situation.refusal? source token with
    | some fault => ⟨.error fault, here⟩
    | none =>
      match upcoming with
      | [] => ⟨.error (fault?.getD .exhausted), { here with fault? := none }⟩
      | next :: rest =>
        match situation.take source token with
        | .error fault => ⟨.error fault, ⟨source, some next, rest, fault?⟩⟩
        | .ok following => drive goal source fault? following next rest

namespace Situation

/-- The goal of reading a single tree. -/
def isTree : Situation → Token → Bool
  | .between (_ :: _), _ => true
  | _, _ => false

/-- The goal of reading all trees. -/
def isFinished : Situation → Token → Bool
  | .between _, token => token.type = .finish
  | _, _ => false

/-- The trees that are complete, in order. -/
def trees : Situation → List Tree
  | .between reversed | .opened _ reversed | .inside _ _ reversed => reversed.reverse

end Situation

def single : List Tree → Except Fault Tree
  | [tree] => .ok tree
  | trees => .error (.malformed (.treeCount trees.length) none)

namespace Cursor

/-- Read from the current token on until the goal is reached. -/
def readUntil (cursor : Cursor) (goal : Situation → Token → Bool) : Outcome (List Tree) :=
  match cursor.current with
  | none => ⟨.error (.noToken "typ"), cursor⟩
  | some token =>
    let outcome := drive goal cursor.source cursor.fault? (.between []) token cursor.upcoming
    ⟨outcome.result.map Situation.trees, outcome.cursor⟩

def readTree (cursor : Cursor) : Outcome Tree :=
  let outcome := cursor.readUntil Situation.isTree
  ⟨outcome.result.bind single, outcome.cursor⟩

/-- Read a child: a list, or a single token that stands for a leaf. -/
def readChild (cursor : Cursor) : Outcome Tree :=
  match cursor.current with
  | none => ⟨.error (.noToken "typ"), cursor⟩
  | some token =>
    if token.type = .opening then cursor.readTree
    else
      let moved := cursor.next
      match moved.result with
      | .error fault => ⟨.error fault, moved.cursor⟩
      | .ok _ =>
        match token.type with
        | .string =>
          ⟨.ok (.leaf .stringLiteral token.value token.span), moved.cursor⟩
        | .word => ⟨wordTree token.value token.span, moved.cursor⟩
        | _ =>
          ⟨.error (.malformed (.unexpected token.value)
            (cursor.source.locate token.span)), moved.cursor⟩

end Cursor

def readTrees (name : Option String) (text : String) : Except Fault (List Tree) :=
  let started := Cursor.start ⟨name, some text⟩ (tokenize name text)
  match started.result with
  | .error fault => .error fault
  | .ok _ => (started.cursor.readUntil Situation.isFinished).result

def readTree (name : Option String) (text : String) : Except Fault Tree :=
  (readTrees name text).bind single

/-- What is reported after a text was read. -/
def readRecord (name : String) (count : Nat) : Record :=
  ⟨.debug, .reader, "Read " ++ toString count ++ " tree(s) from " ++ name⟩

end NescTree.Notation
