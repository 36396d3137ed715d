import NescTree.CommandLine.Word
import NescTree.Store

/-!
# Invocations

The words of a command line act in order.  An output file is opened, and thereby
emptied, as soon as it is named.  Operands have to stand together.  A switch that takes
a value can be given two hyphens in its own word, and then has none; that is noticed
only where the value is needed.
-/

namespace NescTree.CommandLine

inductive Target where
  | terminal
  | file (place : Path)
  /-- Nowhere, since the switch for it was given no value. -/
  | nowhere
  deriving DecidableEq, Repr

/-- What a command line asks for.  Values that were not given are left out. -/
structure Invocation where
  level? : Option Nat
  verbosity : Nat
  target : Target
  color : Bool
  html : Bool
  style? : Option String
  oneLine : Bool
  sources : List String
  deriving DecidableEq, Repr

def Invocation.initial : Invocation :=
  ⟨some 30, 0, .terminal, false, false, some "default", false, []⟩

inductive Stop where
  | help
  | version
  | refused (error : UsageError)
  deriving DecidableEq, Repr

/-- A switch with its value, if it has one. -/
abbrev Action := Switch × Option String

/-- The value that stands in the same word as its switch. -/
def attachedValue (value : String) : Option String :=
  if value = "--" then none else some value

/-- The actions of a word with a switch, and the switch that still needs a value, if
any. -/
structure Expansion where
  actions : List Action
  pending? : Option Switch

/-- Split a word of switches with one hyphen, given the characters after the first
switch.  The last one may take the rest of the word as its value. -/
def expandShort (table : List (String × Switch)) (actions : List Action) (switch : Switch) :
    List Char → Except UsageError Expansion
  | [] =>
    if switch.takesValue then .ok ⟨actions, some switch⟩
    else .ok ⟨actions ++ [(switch, none)], none⟩
  | char :: rest =>
    if switch.takesValue then
      .ok ⟨actions ++ [(switch, attachedValue (String.ofList (char :: rest)))], none⟩
    else
      match table.lookup (String.ofList ['-', char]) with
      | some following => expandShort table (actions ++ [(switch, none)]) following rest
      | none => .error (.ignoredValue switch (String.ofList (char :: rest)))

def expand (table : List (String × Switch)) (found : Found) : Except UsageError Expansion :=
  match found.value? with
  | none =>
    if found.switch.takesValue then .ok ⟨[], some found.switch⟩
    else .ok ⟨[(found.switch, none)], none⟩
  | some value =>
    if found.switch.takesValue then .ok ⟨[(found.switch, attachedValue value)], none⟩
    else if value.isEmpty || "--".toList.isPrefixOf found.name.toList then
      .error (.ignoredValue found.switch value)
    else expandShort table [] found.switch value.toList

structure Progress where
  store : Store
  invocation : Invocation
  /-- Operands since the last switch, as words. -/
  run : List Word
  /-- A switch that waits for its value, and the actions before it in its word. -/
  pending? : Option (List Action × Switch)
  sourcesTaken : Bool
  extras : List String

/-- The store as it is when a command line stops, and why it does. -/
abbrev Stopped := Store × Stop

/-- Send output to the file of the given name, or to the terminal. -/
def openOutput (progress : Progress) (name : String) : Except Stopped Progress :=
  if name = "-" then
    .ok { progress with invocation := { progress.invocation with target := .terminal } }
  else
    match progress.store.openWrite name with
    | .error failure => .error (progress.store, .refused (.cannotOpen failure name))
    | .ok place =>
      .ok { progress with
        store := progress.store.insert place ""
        invocation := { progress.invocation with target := .file place } }

def act (progress : Progress) (action : Action) : Except Stopped Progress :=
  let updated (invocation : Invocation) : Except Stopped Progress :=
    .ok { progress with invocation }
  let invocation := progress.invocation
  match action with
  | (.help, _) => .error (progress.store, .help)
  | (.version, _) => .error (progress.store, .version)
  | (.log, none) => updated { invocation with level? := none }
  | (.log, some value) =>
    match levelNumber? value with
    | some level => updated { invocation with level? := some level }
    | none => .error (progress.store, .refused (.invalidLevel value))
  | (.verbose, _) => updated { invocation with verbosity := invocation.verbosity + 1 }
  | (.output, none) => updated { invocation with target := .nowhere }
  | (.output, some name) => openOutput progress name
  | (.color, _) => updated { invocation with color := true }
  | (.html, _) => updated { invocation with html := true }
  | (.style, value?) => updated { invocation with style? := value? }
  | (.oneLine, _) => updated { invocation with oneLine := true }

def Word.text : Word → String
  | .operand text | .unknown text => text
  | .separator => "--"
  | .switch found => found.name

def Word.isOperand : Word → Bool
  | .operand _ => true
  | _ => false

/-- Take the operands since the last switch as sources, if they are the first ones. -/
def endRun (progress : Progress) : Progress :=
  let texts := progress.run.map Word.text
  if !progress.sourcesTaken && progress.run.any Word.isOperand then
    { progress with
      run := []
      sourcesTaken := true
      invocation := { progress.invocation with sources := texts.erase "--" } }
  else { progress with run := [], extras := progress.extras ++ texts }

/-- Process a word.  Operands are only counted where the command takes any. -/
def step (table : List (String × Switch)) (progress : Progress) (word : Word) :
    Except Stopped Progress :=
  match progress.pending?, word with
  | some (actions, switch), .operand value =>
    (actions ++ [(switch, some value)]).foldlM act { progress with pending? := none }
  | some (_, switch), _ => .error (progress.store, .refused (.expectedValue switch))
  | none, .operand _ | none, .separator => .ok { progress with run := progress.run ++ [word] }
  | none, .unknown text =>
    let ended := endRun progress
    .ok { ended with extras := ended.extras ++ [text] }
  | none, .switch found =>
    let ended := endRun progress
    match expand table found with
    | .error error => .error (progress.store, .refused error)
    | .ok ⟨actions, none⟩ => actions.foldlM act ended
    | .ok ⟨actions, some switch⟩ => .ok { ended with pending? := some (actions, switch) }

def finish (progress : Progress) : Except Stopped (Store × Invocation) :=
  match progress.pending? with
  | some (_, switch) => .error (progress.store, .refused (.expectedValue switch))
  | none =>
    let ended := endRun progress
    if !ended.sourcesTaken then .error (ended.store, .refused .missingOperand)
    else if !ended.extras.isEmpty then
      .error (ended.store, .refused (.unrecognized ended.extras))
    else .ok (ended.store, ended.invocation)

def parseWords (switches : List Switch) (store : Store) (arguments : List String) :
    Except Stopped Progress :=
  let table := nameTable switches
  match classifyAll table arguments with
  | .error error => .error (store, .refused error)
  | .ok words => words.foldlM (step table) ⟨store, .initial, [], none, false, []⟩

/-- The invocation of a command with sources. -/
def parse (switches : List Switch) (store : Store) (arguments : List String) :
    Except Stopped (Store × Invocation) :=
  (parseWords switches store arguments).bind finish

/-- The style that an invocation asks for.  Where no value was given it is an empty
list. -/
def Invocation.style (invocation : Invocation) : Value :=
  match invocation.style? with
  | some name => .text name
  | none => .list []

/-- The output settings that an invocation asks for, on top of others. -/
def Invocation.applyTo (invocation : Invocation) (settings : Settings) : Settings :=
  ((settings.set "color" (.flag invocation.color)).set "html" (.flag invocation.html)).set
    "style" invocation.style

end NescTree.CommandLine
