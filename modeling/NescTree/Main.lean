import NescTree.CommandLine.Run

/-!
# The program

Files and directories that the arguments mention are looked at before a command runs,
and changes are written back afterwards.
-/

namespace NescTree.Program

/-- The names of files that an argument may mention. -/
def mentionedFiles (argument : String) : List String :=
  [argument, String.ofList (argument.toList.drop 2),
    String.ofList ((argument.toList.dropWhile fun char => char != '=').drop 1)]

/-- The names of directories that lead to a file, the file itself included. -/
def mentionedDirectories (name : String) : List String :=
  let parts := Path.parts name
  (List.range parts.length).map fun count => "/".intercalate (parts.take (count + 1))

def readFile? (name : String) : IO (Option String) := do
  try
    return some (← IO.FS.readFile name)
  catch _ =>
    return none

def isDirectory (name : String) : IO Bool := do
  try
    let _ ← IO.FS.Handle.mk (name ++ "/.") .read
    return true
  catch _ =>
    return false

def gatherStore (arguments : List String) : IO Store := do
  let mut store := Store.empty
  for name in arguments.flatMap mentionedFiles do
    for directory in mentionedDirectories name do
      if ← isDirectory directory then
        store := { store with directories := Path.ofName directory :: store.directories }
    if let some contents ← readFile? name then
      store := store.insert (Path.ofName name) contents
  return store

/-- Write changed files and remove files that are gone. -/
def saveStore (before after : Store) : IO Unit := do
  for (place, contents) in after.files do
    if before.get? place != some contents then
      IO.FS.writeFile place.toName contents
  for (place, _) in before.files do
    if (after.get? place).isNone then
      IO.FS.removeFile place.toName

end NescTree.Program

open NescTree in
def main (arguments : List String) : IO UInt32 := do
  let store ← Program.gatherStore arguments
  let host : CommandLine.Host := ⟨"this machine", toString (← IO.monoMsNow)⟩
  let report := CommandLine.run host store arguments
  Program.saveStore store report.store
  (← IO.getStdout).putStr report.stdout
  (← IO.getStderr).putStr report.stderr
  if let some fault := report.crash? then
    (← IO.getStderr).putStrLn fault.message
  return report.exit.toUInt32
