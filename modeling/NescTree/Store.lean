import NescTree.Store.Path

/-!
# Files

The files a program works on, by the places they are at, and how they are opened by
name.  Different names may lead to the same file.
-/

namespace NescTree

inductive OpenFailure where
  /-- There is nothing of this name. -/
  | missing
  /-- The name leads to a directory. -/
  | isDirectory
  /-- The name leads through something that is no directory. -/
  | notDirectory
  /-- The name or a part of it is longer than names can be. -/
  | tooLong
  /-- The name holds a character that no name can hold. -/
  | hasNull
  deriving DecidableEq, Repr

/-- Places with the contents of the files there, and the directories that are known
besides the ones around.  No place occurs twice in a store that is built with the
operations below. -/
structure Store where
  files : List (Path × String)
  directories : List Path
  deriving Repr

namespace Store

def empty : Store := ⟨[], []⟩

def get? (store : Store) (place : Path) : Option String :=
  (store.files.find? fun file => file.1 == place).map Prod.snd

def erase (store : Store) (place : Path) : Store :=
  { store with files := store.files.filter fun file => file.1 != place }

def insert (store : Store) (place : Path) (contents : String) : Store :=
  { store with files := (store.erase place).files ++ [(place, contents)] }

def isDirectory (store : Store) (place : Path) : Bool :=
  place.isAround || store.directories.contains place

/-- The files of the working directory itself, by their names. -/
def listing (store : Store) : List (String × String) :=
  store.files.filterMap fun (place, contents) =>
    match place with
    | [name] => some (name, contents)
    | _ => none

/-! ## Opening files -/

def partLimit : Nat := 255

def nameLimit : Nat := 4095

/-- Take a step from a place, which has to be a directory. -/
def step (store : Store) (place : Path) (part : String) : Except OpenFailure Path :=
  if !store.isDirectory place then
    .error (if (store.get? place).isSome then .notDirectory else .missing)
  else if partLimit < part.utf8ByteSize then .error .tooLong
  else .ok (place.descend part)

/-- Whether a name can be looked up at all. -/
def checkName (name : String) : Except OpenFailure Unit :=
  if name.toList.contains '\x00' then .error .hasNull
  else if name.isEmpty then .error .missing
  else if nameLimit < name.utf8ByteSize then .error .tooLong
  else .ok ()

/-- The contents of a file with unified line ends, as text is read. -/
def openRead (store : Store) (name : String) : Except OpenFailure String := do
  checkName name
  let place ← (Path.parts name).foldlM store.step (Path.origin name)
  if store.isDirectory place then throw .isDirectory
  match store.get? place with
  | some contents => return String.ofList (Text.unifyNewlines contents.toList)
  | none => throw .missing

/-- The parts of a name before the last one that is not empty. -/
def outerParts (name : String) : List String :=
  (((Path.parts name).reverse.dropWhile String.isEmpty).drop 1).reverse

/-- The place of a file that can be written.  A name that ends in a slash can only be
a directory, whether it is there or not. -/
def openWrite (store : Store) (name : String) : Except OpenFailure Path := do
  checkName name
  if name.toList.getLast? = some '/' then
    let _ ← (outerParts name ++ ["."]).foldlM store.step (Path.origin name)
    throw .isDirectory
  else
    let place ← (Path.parts name).foldlM store.step (Path.origin name)
    if store.isDirectory place then throw .isDirectory
    return place

end Store

end NescTree
