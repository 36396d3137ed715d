import NescTree.CommandLine.Invocation
import NescTree.Service
import NescTree.Store.Spool
import NescTree.Text.Wrap

/-!
# Running commands

A command takes trees from its sources one by one and writes each result as a
whole.  It stops at the first failure.  An output file is kept only if nothing
failed.
-/

namespace NescTree.CommandLine

structure Host where
  platform : String
  /-- The time stamp of log lines. -/
  time : String

/-- What running a command leaves behind. -/
structure Report where
  exit : Nat
  stdout : String
  stderr : String
  store : Store
  /-- A fault that the command does not handle. -/
  crash? : Option Fault

def versionText (host : Host) : String := "nescprint 0.1.0 on " ++ host.platform

/-! ## Log lines -/

def colorCode? : Level → Option String
  | .debug => none
  | .info => some "37"
  | .warning => some "33"
  | .error => some "31"

def logLine (host : Host) (record : Record) : String :=
  let line := host.time ++ " | " ++ Text.padLeft 8 ' ' record.level.name ++ " | " ++
    Text.padLeft 10 ' ' record.channel.name ++ " | " ++ record.message
  match colorCode? record.level with
  | some code => "\x1b[1;" ++ code ++ "m" ++ line ++ "\x1b[0m\n"
  | none => line ++ "\n"

/-- The lowest level that is shown, if the invocation has one at all. -/
def Invocation.threshold? (invocation : Invocation) : Option Nat :=
  invocation.level?.map fun level =>
    if 0 < invocation.verbosity then Level.debug.number else level

def logLines (host : Host) (threshold : Nat) (records : List Record) : String :=
  String.join ((records.filter fun record => threshold ≤ record.level.number).map (logLine host))

/-! ## Producing output -/

/-- The output so far, what was reported, and the fault that stopped it. -/
structure Produced where
  spool : Spool
  records : List Record
  fault? : Option Fault

namespace Produced

def text (produced : Produced) : String := produced.spool.text

/-- Put records in front, which were reported before. -/
def after (produced : Produced) (records : List Record) : Produced :=
  { produced with records := records ++ produced.records }

end Produced

/-- The files as they can be read while output is on its way. -/
def Target.view (target : Target) (store : Store) (spool : Spool) : Store :=
  match target with
  | .file place => store.insert place spool.stored
  | .terminal | .nowhere => store

def load (store : Store) (name : String) : Logged (List Tree) := do
  let text ← .ofExcept (Service.openFile store name)
  let trees ← Service.readAll name text
  .report ⟨.debug, .commandLine,
    "Loaded " ++ toString trees.length ++ " trees from " ++ name⟩
  return trees

/-- Convert trees in turn.  Each result is written as a whole or not at all. -/
def produceTrees (convert : Tree → Logged String) (spool : Spool) : List Tree → Produced
  | [] => ⟨spool, [], none⟩
  | tree :: trees =>
    let converted := convert tree
    match converted.result with
    | .error fault => ⟨spool, converted.records, some fault⟩
    | .ok text => (produceTrees convert (spool.write text) trees).after converted.records

/-- Convert the trees of all sources.  Each source is read when its turn comes. -/
def produceSources (store : Store) (target : Target) (convert : Tree → Logged String)
    (spool : Spool) : List String → Produced
  | [] => ⟨spool, [], none⟩
  | name :: names =>
    let loaded := load (target.view store spool) name
    match loaded.result with
    | .error fault => ⟨spool, loaded.records, some fault⟩
    | .ok trees =>
      let converted := (produceTrees convert spool trees).after loaded.records
      match converted.fault? with
      | some _ => converted
      | none =>
        (produceSources store target convert converted.spool names).after converted.records

def Command.convert (command : Command) (invocation : Invocation) : Tree → Logged String :=
  match command with
  | .render => Service.renderTree (invocation.applyTo .initial)
  | .dump => Service.dumpTree (Settings.initial.set "one_line" (.flag invocation.oneLine))

/-- Output can only be written if it goes somewhere. -/
def Target.check (target : Target) (step : String) : Except Fault Unit :=
  match target with
  | .nowhere => .error (.unusableOutput step)
  | .terminal | .file _ => .ok ()

/-- Convert the trees of all sources of an invocation for its target. -/
def Command.produce (command : Command) (store : Store) (invocation : Invocation) : Produced :=
  let target := invocation.target
  let convert (tree : Tree) : Logged String := do
    let text ← command.convert invocation tree
    .ofExcept (target.check "write")
    return text
  let produced := produceSources store target convert .empty invocation.sources
  match produced.fault?, target.check "flush" with
  | none, .error fault => { produced with fault? := some fault }
  | _, _ => produced

/-! ## Reports -/

def faultText (host : Host) (store : Store) (threshold : Nat) (fault : Fault) : String :=
  let errors (messages : List String) : String :=
    logLines host threshold (messages.map fun message => ⟨.error, .root, message⟩)
  if fault.isComplaint then
    errors (fault.message :: (fault.location?.map Location.brief).toList) ++ fault.display store
  else if fault.isMissingFile then errors ["File not found " ++ fault.message]
  else ""

/-- Store the output, or show it.  An output file is removed after a fault. -/
def deliver (store : Store) (target : Target) (produced : Produced) : String × Store :=
  match target, produced.fault? with
  | .terminal, _ => (produced.text, store)
  | .file place, none => ("", store.insert place produced.text)
  | .file place, some _ => ("", store.erase place)
  | .nowhere, _ => ("", store)

/-- Run a command with its log shown from a level on. -/
def runLogged (host : Host) (command : Command) (store : Store) (invocation : Invocation)
    (threshold : Nat) : Report :=
  let produced := command.produce store invocation
  let begun : List Record :=
    [⟨.debug, .root, "Loggers attached"⟩, ⟨.info, .root, versionText host⟩]
  let shown := match produced.fault? with
    | some fault => faultText host store threshold fault
    | none => ""
  let (stdout, delivered) := deliver store invocation.target produced
  { exit := if produced.fault?.isSome then 1 else 0
    stdout
    stderr := logLines host threshold (begun ++ produced.records) ++ shown ++
      logLines host threshold [⟨.debug, .root, "Removing loggers"⟩]
    store := delivered
    crash? := produced.fault?.filter fun fault => !(fault.isComplaint || fault.isMissingFile) }

/-- Without a level for its log a command does not begin. -/
def runInvocation (host : Host) (command : Command) (store : Store) (invocation : Invocation) :
    Report :=
  match invocation.threshold? with
  | some threshold => runLogged host command store invocation threshold
  | none => ⟨1, "", "", store, some .unusableLevel⟩

/-- The version as a command shows it.  Dumping fills lines of the width of a terminal,
rendering keeps the text as it is. -/
def Command.versionLines (command : Command) (host : Host) : String :=
  match command with
  | .render => versionText host ++ "\n"
  | .dump => Text.fill 78 (versionText host) ++ "\n"

def Command.run (command : Command) (host : Host) (store : Store) (arguments : List String) :
    Report :=
  match parse command.switches store arguments with
  | .ok (opened, invocation) => runInvocation host command opened invocation
  | .error (opened, .help) =>
    ⟨0, "usage: nescprint [option ...] tree-file [tree-file ...]\n", "", opened, none⟩
  | .error (opened, .version) => ⟨0, command.versionLines host, "", opened, none⟩
  | .error (opened, .refused error) =>
    ⟨2, "", "nescprint: error: " ++ error.message ++ "\n", opened, none⟩

def welcome : String :=
  "Welcome to the nescprint command line!\n\nPlease use one of the subcommands below:\n" ++
    String.join (Command.all.map fun command =>
      "  $ python -m nescprint " ++ command.name ++ " -h\n") ++ "\n"

/-- Run the command that the first argument names. -/
def run (host : Host) (store : Store) (arguments : List String) : Report :=
  match arguments with
  | [] => ⟨0, welcome, "", store, none⟩
  | name :: others =>
    match Command.ofName? name with
    | some command => command.run host store others
    | none => ⟨0, welcome, "", store, none⟩

end NescTree.CommandLine
