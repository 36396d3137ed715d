import NescTree.Size
import NescTree.Source.Location
import NescTree.Text.Pad

/-!
# Messages inside their source

A message is shown below the line it is about, with a few lines around it and a marker under
the characters it is about.  It is printed row by row, and the printing stops at a line that is
not there and at a marker that a machine refuses to build.  The rows of the window are those of
the source, and the marker of a message about a stretch of a text can be built, so for such a
message the window is also given as a whole.
-/

namespace NescTree.Window

def firstRow (row : Int) : Int := max (row - 2) 1

def lastRow (row : Int) (count : Nat) : Int := min (row + 3) count

/-- The lines shown around a row, with their row numbers. -/
def shown (lines : List String) (row : Int) : List (String × Nat) :=
  let first := firstRow row
  ((lines.zipIdx 1).drop (first - 1).toNat).take (lastRow row lines.length - first + 1).toNat

def plain (line : String × Nat) : String :=
  Text.padLeft 5 ' ' (toString line.2) ++ " :" ++ line.1 ++ "\n"

/-- The marker below a line, and the message that hangs from its middle. -/
def marker (col length : Int) (message : String) : String :=
  let width := (max length 1).toNat
  let margin := "      :" ++ Text.spaces (col - 1).toNat
  let stem := margin ++ Text.spaces (width / 2)
  margin ++ String.ofList (List.replicate width '^') ++ "\n" ++
    stem ++ "|\n" ++ stem ++ "+---- " ++ message ++ "\n"

/-- Why the marker cannot be built, if it cannot. -/
def markerFailure? (col length : Int) : Option SizeFailure :=
  (Size.repetition? 1 (max length 1)).or (Size.repetition? 1 (col - 1))

/-- A numbered line, followed by the marker if the message is about it. -/
def numbered (row col length : Int) (message : String) (line : String × Nat) : String :=
  plain line ++ if (line.2 : Int) = row then marker col length message else ""

def render (lines : List String) (row col length : Int) (message : String) : String :=
  String.join ((shown lines row).map (numbered row col length message))

/-- Why printing stops before the end. -/
inductive Stop where
  /-- There is no line at this row. -/
  | noLine (row : Int)
  /-- The marker cannot be built. -/
  | noMarker (failure : SizeFailure)
  deriving DecidableEq, Repr

/-- What has been printed, and why nothing follows it, if that is so. -/
structure Printout where
  text : String
  stop? : Option Stop
  deriving DecidableEq, Repr

def Printout.andThen (first second : Printout) : Printout :=
  match first.stop? with
  | some _ => first
  | none => ⟨first.text ++ second.text, second.stop?⟩

/-- The line at a row, counted from one, which has to be there. -/
def lineAt? (lines : List String) (row : Int) : Option String :=
  if 1 ≤ row then lines[(row - 1).toNat]? else none

def rowsAround (row : Int) (count : Nat) : List Int :=
  (List.range (lastRow row count + 1 - firstRow row).toNat).map fun (offset : Nat) =>
    firstRow row + offset

/-- Print the line at a row of the window, with the marker if the message is about it. -/
def printRow (lines : List String) (row col length : Int) (message : String) (current : Int) :
    Printout :=
  match lineAt? lines current with
  | none => ⟨"", some (.noLine current)⟩
  | some line =>
    let shown := plain (line, current.toNat)
    if current = row then
      match markerFailure? col length with
      | some failure => ⟨shown, some (.noMarker failure)⟩
      | none => ⟨shown ++ marker col length message, none⟩
    else ⟨shown, none⟩

/-- Print the lines at some rows, up to the first that cannot be printed. -/
def printRows (lines : List String) (row col length : Int) (message : String) :
    List Int → Printout
  | [] => ⟨"", none⟩
  | current :: rest =>
    (printRow lines row col length message current).andThen
      (printRows lines row col length message rest)

/-- Print a message in the window around its row. -/
def print (lines : List String) (row col length : Int) (message : String) : Printout :=
  printRows lines row col length message (rowsAround row lines.length)

/-- The name of a source above the window.  An empty name is not shown. -/
def heading (name : String) : String :=
  if name.isEmpty then "" else "File : \"" ++ name ++ "\"\n"

end NescTree.Window

namespace NescTree.Location

/-- Print a message at a location, in the given lines and below the given file name. -/
def message (location : Location) (lines : List String) (name text : String) : Window.Printout :=
  Window.Printout.andThen ⟨Window.heading name, none⟩
    (Window.print lines location.row location.col location.length text)

end NescTree.Location
