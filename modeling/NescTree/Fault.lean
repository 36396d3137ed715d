import NescTree.Kind
import NescTree.Size
import NescTree.Source.Window
import NescTree.Text.Quoted

/-!
# Faults

Everything that can go wrong, by cause.  The wording of every cause is given in
one place.  Some causes point to a place in a source and are shown inside it.
-/

namespace NescTree

/-- Why a text is not tree notation. -/
inductive SyntaxCause where
  /-- A token of another type has to stand here. -/
  | expected (wanted found : String)
  /-- A list does not start with a word. -/
  | expectedKind
  /-- A list starts with a word that names no kind. -/
  | unknownKind (word : String)
  /-- The text ends inside a list. -/
  | endOfFile
  /-- A token stands where a child has to stand. -/
  | unexpected (value : String)
  /-- The text ends inside a string. -/
  | unterminated
  /-- The text holds another number of trees than one. -/
  | treeCount (count : Nat)
  /-- Anything else, in words. -/
  | stated (message : String)
  deriving DecidableEq, Repr

def SyntaxCause.message : SyntaxCause → String
  | .expected wanted found => "Expected \"" ++ wanted ++ "\", got \"" ++ found ++ "\""
  | .expectedKind => "Expected a node kind"
  | .unknownKind word => "Unknown node kind \"" ++ word ++ "\""
  | .endOfFile => "Unexpected end of file"
  | .unexpected value => "Unexpected \"" ++ value ++ "\""
  | .unterminated => "Expected a character, but at end of file"
  | .treeCount count => "Expected a single tree, got " ++ toString count
  | .stated message => message

def OpenFailure.message (name : String) : OpenFailure → String
  | .missing => "[Errno 2] No such file or directory: " ++ Text.quoted name
  | .isDirectory => "[Errno 21] Is a directory: " ++ Text.quoted name
  | .notDirectory => "[Errno 20] Not a directory: " ++ Text.quoted name
  | .tooLong => "[Errno 36] File name too long: " ++ Text.quoted name
  | .hasNull => "embedded null byte"

def SizeFailure.message : SizeFailure → String
  | .noWord => "cannot fit \x27int\x27 into an index-sized integer"
  | .tooLong => "repeated string is too long"

inductive Fault where
  /-- A text is not tree notation. -/
  | malformed (cause : SyntaxCause) (location : Option Location)
  /-- A problem stated in words. -/
  | stated (message : String) (location : Option Location)
  /-- There is no highlighting style of this name. -/
  | unknownStyle (name : String)
  /-- A node has too few children for its rule. -/
  | missingChild
  /-- The index of a child does not fit into a word. -/
  | indexTooLarge
  /-- A text is larger than a machine can handle. -/
  | tooLarge (failure : SizeFailure)
  /-- A text that has to be written is absent. -/
  | missingText
  /-- The name in a line directive is absent. -/
  | unnamedDirective
  /-- A literal without text has no short form. -/
  | unmeasuredLiteral
  /-- There is no declarator scope to count in. -/
  | noDeclaratorScope
  /-- There is no declarator scope to close. -/
  | noScopeToClose
  /-- A kind was given to the rules of another family. -/
  | noRule (kind : Kind)
  /-- The first character of an empty word was looked at. -/
  | emptyWord
  /-- There is nothing left to read. -/
  | exhausted
  /-- No token has been read yet. -/
  | noToken (field : String)
  /-- There is no setting of this name. -/
  | unknownSetting (name : String)
  /-- A highlighting style is given by a value of a type that cannot be looked up. -/
  | styleNotAKey (type : String)
  /-- A highlighting style is given by a value of a type that is no text. -/
  | styleNotText (type : String)
  /-- A file cannot be opened. -/
  | cannotOpen (failure : OpenFailure) (name : String)
  /-- A value that is no file was to be opened. -/
  | notAFile (shown : String)
  /-- A value of a type that is no file name was taken for one. -/
  | notAFileName (type : String)
  /-- A number that belongs to no open file was taken for one. -/
  | closedFile
  /-- A number below zero was taken for an open file. -/
  | negativeFile
  /-- The output cannot take a step, since no file was named for it. -/
  | unusableOutput (step : String)
  /-- The level of the log is not known, since none was named for it. -/
  | unusableLevel
  /-- There is no log level of this name. -/
  | invalidLevel (name : String)
  deriving DecidableEq, Repr

namespace Fault

def message : Fault → String
  | .malformed cause _ => cause.message
  | .stated message _ => message
  | .unknownStyle name => "Unknown style \"" ++ name ++ "\""
  | .missingChild => "tuple index out of range"
  | .indexTooLarge => SizeFailure.noWord.message
  | .tooLarge failure => failure.message
  | .missingText => "string argument expected, got \x27NoneType\x27"
  | .unnamedDirective => "\x27NoneType\x27 object has no attribute \x27endswith\x27"
  | .unmeasuredLiteral => "object of type \x27NoneType\x27 has no len()"
  | .noDeclaratorScope => "list index out of range"
  | .noScopeToClose => "pop from empty list"
  | .noRule kind => "NodeKind." ++ kind.name
  | .emptyWord => "string index out of range"
  | .exhausted => ""
  | .noToken field => "\x27NoneType\x27 object has no attribute \x27" ++ field ++ "\x27"
  | .unknownSetting name => Text.quoted name
  | .styleNotAKey type => "unhashable type: \x27" ++ type ++ "\x27"
  | .styleNotText type => "can only concatenate str (not \"" ++ type ++ "\") to str"
  | .cannotOpen failure name => failure.message name
  | .notAFile shown => "Cannot open " ++ shown
  | .notAFileName type => "expected str, bytes or os.PathLike object, not " ++ type
  | .closedFile => "[Errno 9] Bad file descriptor"
  | .negativeFile => "negative file descriptor"
  | .unusableOutput step => "\x27list\x27 object has no attribute \x27" ++ step ++ "\x27"
  | .unusableLevel => "Level not an integer or a valid string: []"
  | .invalidLevel name => "Invalid log level: " ++ name

def location? : Fault → Option Location
  | .malformed _ location => location
  | .stated _ location => location
  | _ => none

/-- Whether a fault is about the user's trees or choices, and not about files or about
a step that cannot be taken. -/
def isComplaint : Fault → Bool
  | .malformed _ _ | .stated _ _ | .unknownStyle _ => true
  | _ => false

def isMissingFile : Fault → Bool
  | .cannotOpen .missing _ | .notAFile _ => true
  | _ => false

/-- The place a fault is shown at, with the lines of its source, if there are any. -/
def setting? (store : Store) (fault : Fault) : Option (Location × List String) :=
  fault.location?.bind fun location =>
    let lines := location.lines store
    if lines.isEmpty then none else some (location, lines)

/-- Print a fault: inside its source if that can be loaded, otherwise the message alone. -/
def print (store : Store) (fault : Fault) : Window.Printout :=
  match fault.setting? store with
  | none => ⟨fault.message ++ "\n", none⟩
  | some (location, lines) =>
    location.message lines (location.source.name.getD "") fault.message

/-- A fault as it is shown to the user, where its place is one of a text. -/
def display (store : Store) (fault : Fault) : String :=
  match fault.setting? store with
  | none => fault.message ++ "\n"
  | some (location, lines) =>
    Window.heading (location.source.name.getD "") ++
      Window.render lines location.row location.col location.length fault.message

end Fault

/-- A computation gives a result if both of its parts do. -/
theorem bind_eq_ok_iff {α β : Type} {value : Except Fault α} {next : α → Except Fault β}
    {result : β} :
    (value >>= next) = .ok result ↔ ∃ middle, value = .ok middle ∧ next middle = .ok result := by
  cases value <;> simp [bind, Except.bind]

theorem map_eq_ok_iff {α β : Type} {value : Except Fault α} {change : α → β} {result : β} :
    value.map change = .ok result ↔ ∃ middle, value = .ok middle ∧ change middle = result := by
  cases value <;> simp [Except.map]

theorem bind_eq_error_iff {α β : Type} {value : Except Fault α} {next : α → Except Fault β}
    {fault : Fault} :
    (value >>= next) = .error fault ↔
      value = .error fault ∨ ∃ middle, value = .ok middle ∧ next middle = .error fault := by
  cases value <;> simp [bind, Except.bind]

end NescTree
