import NescTree.Render.Tree

/-!
# Rendering step by step

A session renders parts of trees one after the other in a state that it keeps, and
enters and leaves scopes by hand.
-/

namespace NescTree.Render

/-- A render state, and what leaving the open scopes undoes, innermost first. -/
structure Session where
  state : State
  scopes : List Undo
  deriving Repr

namespace Session

def initial : Session := ⟨.initial, []⟩

/-- What a step gave, and the session after it. -/
structure Step where
  written : Written
  session : Session

/-- Run a program in the state that has been reached, at whatever level that is. -/
def run (session : Session) (doc : Doc) : Step :=
  let written := doc.run session.state LineStart.bounded
  ⟨written, { session with state := written.state }⟩

def reset (session : Session) : Step :=
  ⟨.ofText .initial "", { session with state := .initial }⟩

def render (session : Session) (tree : Tree) : Step :=
  session.reset.session.run (wholeDoc tree)

def enter (session : Session) (scope : Scope) : Step :=
  match scope.enter session.state with
  | .error fault => ⟨.ofFault session.state fault, session⟩
  | .ok entered =>
    ⟨.ofText entered.state entered.opening,
      ⟨entered.state, entered.undo :: session.scopes⟩⟩

def leave (session : Session) : Step :=
  match session.scopes with
  | [] => ⟨.ofText session.state "", session⟩
  | undo :: outer =>
    let written := (Written.ofText session.state "").leave undo
    ⟨written, ⟨written.state, outer⟩⟩

/-- Undo the changes of scopes, innermost first, until one cannot be undone. -/
def unwindAll (state : State) : List Undo → Step
  | [] => ⟨.ofText state "", ⟨state, []⟩⟩
  | undo :: outer =>
    match undo.apply state with
    | .error fault => ⟨.ofFault state fault, ⟨state, outer⟩⟩
    | .ok restored => unwindAll restored outer

/-- Leave all scopes as after a failure, without their closing texts. -/
def unwind (session : Session) : Step := unwindAll session.state session.scopes

/-- Process a line directive.  The directive to write is handed back, not written. -/
def enterFile (session : Session) (name : String) : Option String × Step :=
  let change := session.state.headers.enterFile name
  let state := { session.state with headers := change.mode }
  (change.include?, ⟨⟨state, "", change.records, none⟩, { session with state }⟩)

end Session

end NescTree.Render
