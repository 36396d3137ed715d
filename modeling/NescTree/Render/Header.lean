import NescTree.Log

/-!
# Skipping the contents of headers

The preprocessor has pasted the contents of headers into a tree.  A line directive
that names a header marks the start of such contents, and one that names any other
file marks their end.  Skipping the contents and writing an include directive in
their place gives the main file back.
-/

namespace NescTree.Render

/-- Whether nodes come from the main file or from a header. -/
inductive HeaderMode where
  | emitting
  | skipping
  deriving DecidableEq, Repr

def isHeaderName (name : List Char) : Bool :=
  ".h\"".toList.isSuffixOf name || ".h>".toList.isSuffixOf name

/-- Write a single or a doubled backslash as a forward slash. -/
def forwardSlashes : List Char → List Char
  | [] => []
  | '\\' :: '\\' :: rest => '/' :: forwardSlashes rest
  | char :: rest => (if char == '\\' then '/' else char) :: forwardSlashes rest

/-- What a line directive leads to: another mode, possibly a directive to write,
and a report. -/
structure FileChange where
  mode : HeaderMode
  include? : Option String
  records : List Record

/-- Process a line directive for a quoted file name. -/
def HeaderMode.enterFile (mode : HeaderMode) (name : String) : FileChange :=
  if isHeaderName name.toList then
    match mode with
    | .skipping => ⟨.skipping, none, []⟩
    | .emitting =>
      let shown := String.ofList (forwardSlashes name.toList)
      ⟨.skipping, some ("#include " ++ shown),
        [⟨.debug, .printer, "Reconstructed include of " ++ shown⟩]⟩
  else
    match mode with
    | .skipping => ⟨.emitting, none, [⟨.debug, .printer, "Back in main file " ++ name⟩]⟩
    | .emitting => ⟨.emitting, none, []⟩

end NescTree.Render
