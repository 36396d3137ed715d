import NescTree.Store

/-!
# Places in a source

A span is a stretch of characters on a row of a source, as tokens and nodes carry
it.  A location adds the source itself, so that the line can be shown.
-/

namespace NescTree

/-- A stretch of `length` characters that starts at `row` and `col`, both
counted from one. -/
structure Span where
  row : Nat
  col : Nat
  length : Nat
  deriving DecidableEq, Repr

/-- A named text.  Either part may be unknown. -/
structure Source where
  name : Option String
  text : Option String
  deriving DecidableEq, Repr

/-- A place in a source.  Nothing keeps the numbers within the source. -/
structure Location where
  source : Source
  row : Int
  col : Int
  length : Int
  deriving DecidableEq, Repr

def Source.locate (source : Source) (span : Span) : Location :=
  ⟨source, span.row, span.col, span.length⟩

namespace Location

/-- Short form, such as `(a.tree, 1, 2, 3)`. -/
def brief (location : Location) : String :=
  "(" ++ location.source.name.getD "None" ++ ", " ++ toString location.row ++ ", " ++
    toString location.col ++ ", " ++ toString location.length ++ ")"

/-- The text a location points into.  When it is not at hand, the file of that
name is read, if there is one. -/
def sourceText (store : Store) (location : Location) : String :=
  let text := location.source.text.getD ""
  if text.isEmpty then
    match location.source.name with
    | some name => if name.isEmpty then text else (store.openRead name).toOption.getD text
    | none => text
  else text

/-- Why the lines of a location cannot be shown although something of that name is
there: it is a directory. -/
def obstacle? (store : Store) (location : Location) : Option (OpenFailure × String) :=
  match location.source with
  | ⟨some name, text⟩ =>
    if name.isEmpty || !(text.getD "").isEmpty then none
    else match store.openRead name with
      | .error .isDirectory => some (.isDirectory, name)
      | _ => none
  | ⟨none, _⟩ => none

def lines (store : Store) (location : Location) : List String :=
  Text.lines (location.sourceText store)

def sourceLine (store : Store) (location : Location) : String :=
  let lines := location.lines store
  if 0 < location.row ∧ location.row ≤ lines.length then
    lines.getD (location.row - 1).toNat ""
  else "Could not load source"

end Location

end NescTree
