import NescTree.Settings

/-!
# Commands and their switches

There are two commands.  Each takes file names and switches; a switch has one or two
names, and may take a value.
-/

namespace NescTree.CommandLine

inductive Switch where
  | help | log | verbose | version | output | color | html | style | oneLine
  deriving DecidableEq, Repr

namespace Switch

def names : Switch → List String
  | .help => ["-h", "--help"]
  | .log => ["--log"]
  | .verbose => ["--verbose", "-v"]
  | .version => ["--version", "-V"]
  | .output => ["--output", "-o"]
  | .color => ["--color"]
  | .html => ["--html"]
  | .style => ["--style"]
  | .oneLine => ["--one-line"]

/-- The names of a switch, as shown in messages. -/
def title (switch : Switch) : String := "/".intercalate switch.names

def takesValue : Switch → Bool
  | .log | .output | .style => true
  | _ => false

def highlighting : List Switch := [.color, .html, .style]

end Switch

inductive Command where
  | render
  | dump
  deriving DecidableEq, Repr

namespace Command

def name : Command → String
  | .render => "render"
  | .dump => "dump"

def all : List Command := [.dump, .render]

def ofName? (name : String) : Option Command :=
  all.find? fun command => command.name == name

/-- The switches of a command, in the order in which they are looked up. -/
def switches : Command → List Switch
  | .render => [.help, .log, .verbose, .version, .output] ++ Switch.highlighting
  | .dump => [.help, .log, .verbose, .version, .output, .oneLine]

end Command

def nameTable (switches : List Switch) : List (String × Switch) :=
  switches.flatMap fun switch => switch.names.map fun name => (name, switch)

/-- The level of a name, in upper or lower case.  The dotless and the long form of
two letters count as those letters. -/
def levelNumber? (name : String) : Option Nat :=
  let upper (char : Char) : Char :=
    if char == 'ı' then 'I' else if char == 'ſ' then 'S' else char.toUpper
  match String.ofList (name.toList.map upper) with
  | "NOTSET" => some 0
  | "DEBUG" => some 10
  | "INFO" => some 20
  | "WARN" | "WARNING" => some 30
  | "ERROR" => some 40
  | "CRITICAL" | "FATAL" => some 50
  | _ => none

def logLevel (name : String) : Except Fault Nat :=
  match levelNumber? name with
  | some number => .ok number
  | none => .error (.invalidLevel name)

end NescTree.CommandLine
