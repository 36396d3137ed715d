import NescTree.Fault
import NescTree.Render.Header
import NescTree.Text.Pad

/-!
# Render state

What rules have to know besides the node they render: the indentation, whether the
next operator goes without parentheses, whether the contents of a header are being
skipped, and how many declarators are open.  Rules change the state only inside
scopes.  Leaving a scope undoes its own change and nothing else.
-/

namespace NescTree.Render

structure State where
  /-- Levels of indentation.  A label at the top level takes this below zero. -/
  level : Int
  /-- Whether the next operator is written without parentheses around it. -/
  bare : Bool
  headers : HeaderMode
  /-- The number of declarators entered in each open parameter list, innermost
  first. -/
  declarators : List Int
  deriving DecidableEq, Repr

namespace State

def initial : State := ⟨0, false, .emitting, [0]⟩

/-- The number of spaces at the start of a line. -/
def margin (state : State) : Nat := 4 * state.level.toNat

def isSkipping (state : State) : Bool := state.headers = .skipping

def inDeclarator (state : State) : Except Fault Bool :=
  match state.declarators with
  | [] => .error .noDeclaratorScope
  | count :: _ => .ok (count != 0)

def countDeclarators (state : State) (amount : Int) : Except Fault State :=
  match state.declarators with
  | [] => .error .noDeclaratorScope
  | count :: outer => .ok { state with declarators := (count + amount) :: outer }

def dropScope (state : State) : Except Fault State :=
  match state.declarators with
  | [] => .error .noScopeToClose
  | _ :: outer => .ok { state with declarators := outer }

end State

/-- How a line is started in a state: the spaces before its text, or why there are none. -/
abbrev LineStart := State → Except Fault String

namespace LineStart

/-- An indentation may have any size.  A rendering that starts at level zero reaches no level at
which a machine would refuse it. -/
def free : LineStart := fun state => .ok (Text.spaces state.margin)

/-- A machine refuses an indentation whose size does not fit into a word. -/
def bounded : LineStart := fun state =>
  match Size.repetition? 4 (max state.level 0) with
  | some failure => .error (.tooLarge failure)
  | none => free state

end LineStart

/-- A part of the output in which the state is different. -/
inductive Scope where
  /-- The indentation is changed by some levels. -/
  | indented (amount : Int)
  /-- The next operator gets parentheses around it, or does not. -/
  | parentheses (enabled : Bool)
  /-- The inside of an operator, which is written in parentheses if it has to. -/
  | operator
  /-- A parameter list, in which declarators are counted from zero. -/
  | parameters
  /-- A declarator. -/
  | declarator
  /-- A declarator that is written in parentheses inside another one. -/
  | nestedDeclarator
  deriving DecidableEq, Repr

inductive Undo where
  | indentation (amount : Int)
  | parentheses (previous : Bool) (closing : String)
  | parameters
  | declarator (closing : String)
  deriving DecidableEq, Repr

/-- A scope that has just been entered. -/
structure Entered where
  state : State
  opening : String
  undo : Undo

def Scope.enter (scope : Scope) (state : State) : Except Fault Entered :=
  match scope with
  | .indented amount =>
    .ok ⟨{ state with level := state.level + amount }, "", .indentation amount⟩
  | .parentheses enabled =>
    .ok ⟨{ state with bare := !enabled }, "", .parentheses state.bare ""⟩
  | .operator =>
    .ok ⟨{ state with bare := false }, if state.bare then "" else "( ",
      .parentheses state.bare (if state.bare then "" else " )")⟩
  | .parameters =>
    .ok ⟨{ state with declarators := 0 :: state.declarators }, "", .parameters⟩
  | .declarator => do
    let counted ← state.countDeclarators 1
    return ⟨counted, "", .declarator ""⟩
  | .nestedDeclarator => do
    let nested ← state.inDeclarator
    let counted ← state.countDeclarators 1
    return ⟨counted, if nested then "(" else "", .declarator (if nested then ")" else "")⟩

namespace Undo

/-- Undo the change of a scope in the state at its end. -/
def apply (undo : Undo) (state : State) : Except Fault State :=
  match undo with
  | .indentation amount => .ok { state with level := state.level - amount }
  | .parentheses previous _ => .ok { state with bare := previous }
  | .parameters => state.dropScope
  | .declarator _ => state.countDeclarators (-1)

/-- The text at the end of a scope that is left without a failure. -/
def closing : Undo → String
  | .indentation _ | .parameters => ""
  | .parentheses _ closing | .declarator closing => closing

end Undo

end NescTree.Render
