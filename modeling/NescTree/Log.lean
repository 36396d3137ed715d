import NescTree.Text.Pad

/-!
# Log records

What the parts of the program report while they work.
-/

namespace NescTree

/-- How much a record matters. -/
inductive Level where
  | debug | info | warning | error
  deriving DecidableEq, Repr

def Level.name : Level → String
  | .debug => "DEBUG"
  | .info => "INFO"
  | .warning => "WARNING"
  | .error => "ERROR"

def Level.number : Level → Nat
  | .debug => 10
  | .info => 20
  | .warning => 30
  | .error => 40

/-- The part of the program a record comes from. -/
inductive Channel where
  | root | reader | printer | highlight | service | commandLine
  deriving DecidableEq, Repr

def Channel.name : Channel → String
  | .root => "root"
  | .reader => "reader"
  | .printer => "printer"
  | .highlight => "highlight"
  | .service => "api"
  | .commandLine => "cli"

structure Record where
  level : Level
  channel : Channel
  message : String
  deriving DecidableEq, Repr

end NescTree
