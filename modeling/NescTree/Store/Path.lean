import NescTree.Text.Lines

/-!
# Paths

A file name with slashes in it names a way through directories.  Where it leads to
is known without looking at any of them, as long as every step can be taken.
-/

namespace NescTree

/-- The names on the way from the working directory, innermost first.  A way that
leads out of the working directory has `..` at its outer end, and a way from the root
has `/` there. -/
abbrev Path := List String

namespace Path

/-- The directory that a way starts from. -/
def origin (name : String) : Path :=
  if name.toList.head? = some '/' then ["/"] else []

/-- The directory around a place.  The root is around itself. -/
def up : Path → Path
  | [] => [".."]
  | ".." :: outer => ".." :: ".." :: outer
  | "/" :: outer => "/" :: outer
  | _ :: outer => outer

def descend (place : Path) (name : String) : Path :=
  if name = "" ∨ name = "." then place
  else if name = ".." then place.up
  else name :: place

/-- The parts of a name between slashes, which may be empty. -/
def splitParts : List Char → List (List Char)
  | [] => [[]]
  | '/' :: rest => [] :: splitParts rest
  | char :: rest => Text.prependToFirst char (splitParts rest)

def parts (name : String) : List String :=
  (splitParts name.toList).map String.ofList

def ofName (name : String) : Path :=
  (parts name).foldl descend (origin name)

/-- A name that leads to a place. -/
def toName (place : Path) : String :=
  "/".intercalate place.reverse

/-- Whether a place is the working directory or around it. -/
def isAround (place : Path) : Bool :=
  place.all fun name => name == ".." || name == "/"

end Path

end NescTree
