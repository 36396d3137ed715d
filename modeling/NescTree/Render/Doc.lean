import NescTree.Render.State

/-!
# Layout programs

A rule does not write text itself.  It builds a small program that says what is
written and in which state, and the program is run on a render state.  Running
stops at the first fault and keeps what was written before it.
-/

namespace NescTree.Render

inductive Doc where
  | nothing
  /-- Write a text, which must not be absent. -/
  | write (text : Option String)
  /-- Start a line at the current indentation. -/
  | margin
  | fail (fault : Fault)
  | append (first second : Doc)
  | within (scope : Scope) (body : Doc)
  /-- Enter the file that a line directive names. -/
  | directive (name : Option String)
  /-- Run only if the contents of a header are not being skipped. -/
  | unlessSkipping (body : Doc)
  | report (record : Record)
  /-- Go down to the child at an index, for what the body renders. -/
  | descend (index : Nat) (body : Doc)
  /-- Render the node reached by going down. -/
  | visit (body : Doc)
  deriving Repr

instance : Coe String Doc where
  coe text := .write (some text)

namespace Doc

/-- Run programs one after the other. -/
def seq : List Doc → Doc
  | [] => .nothing
  | doc :: docs => .append doc (seq docs)

/-- Run programs with a text between any two of them. -/
def joined (separator : String) : List Doc → Doc
  | [] => .nothing
  | [doc] => doc
  | doc :: next :: docs => .append doc (.append separator (joined separator (next :: docs)))

end Doc

/-- What running a program gives: the state at its end, the text written, the
records reported, and the fault that stopped it, if any. -/
structure Written where
  state : State
  text : String
  records : List Record
  fault? : Option Fault
  deriving Repr

namespace Written

def ofText (state : State) (text : String) : Written := ⟨state, text, [], none⟩

def ofFault (state : State) (fault : Fault) : Written := ⟨state, "", [], some fault⟩

/-- The whole text, if there was no fault. -/
def result (written : Written) : Except Fault String :=
  match written.fault? with
  | some fault => .error fault
  | none => .ok written.text

/-- Go on with a program in the state at the end, unless there was a fault. -/
def andThen (written : Written) (next : State → Written) : Written :=
  match written.fault? with
  | some _ => written
  | none =>
    let rest := next written.state
    ⟨rest.state, written.text ++ rest.text, written.records ++ rest.records, rest.fault?⟩

/-- Leave a scope.  The change of state is undone in any case, and the closing text
is written if there was no fault. -/
def leave (written : Written) (undo : Undo) : Written :=
  match undo.apply written.state, written.fault? with
  | .error fault, _ => { written with fault? := some fault }
  | .ok restored, some _ => { written with state := restored }
  | .ok restored, none =>
    { written with state := restored, text := written.text ++ undo.closing }

end Written

namespace Doc

/-- Run a program in a state, where lines are started in a given way. -/
def run (doc : Doc) (state : State) (start : LineStart := LineStart.free) : Written :=
  match doc, state with
  | .nothing, state => .ofText state ""
  | .write (some text), state => .ofText state text
  | .write none, state => .ofFault state .missingText
  | .margin, state =>
    match start state with
    | .error fault => .ofFault state fault
    | .ok spaces => .ofText state spaces
  | .fail fault, state => .ofFault state fault
  | .append first second, state =>
    (first.run state start).andThen fun state => second.run state start
  | .within scope body, state =>
    match scope.enter state with
    | .error fault => .ofFault state fault
    | .ok entered =>
      ((Written.ofText entered.state entered.opening).andThen fun state =>
        body.run state start).leave entered.undo
  | .directive none, state => .ofFault state .unnamedDirective
  | .directive (some name), state =>
    let change := state.headers.enterFile name
    ⟨{ state with headers := change.mode },
      match change.include? with
      | some line => line ++ "\n"
      | none => "",
      change.records, none⟩
  | .unlessSkipping body, state =>
    if state.isSkipping then .ofText state "" else body.run state start
  | .report record, state => ⟨state, "", [record], none⟩
  | .descend _ body, state => body.run state start
  | .visit body, state => body.run state start

theorem run_margin (state : State) :
    Doc.margin.run state = .ofText state (Text.spaces state.margin) := rfl

end Doc

end NescTree.Render
