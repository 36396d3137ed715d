import NescTree.Highlight
import NescTree.Notation.Reader
import NescTree.Notation.Writer
import NescTree.Outline
import NescTree.Render.Tree
import NescTree.Text.Blank

/-!
# Reading, rendering and dumping in one step

Trees are taken from where they are: a tree, a text in tree notation, the name of a
file, or an open file.
-/

namespace NescTree.Service

/-- Where a tree comes from. -/
inductive Input where
  /-- Tree notation, or the name of a file. -/
  | text (contents : String)
  | tree (tree : Tree)
  /-- An open file, which may have no name. -/
  | file (name : Option String) (contents : String)
  /-- A value that is none of these. -/
  | other (value : Value)

/-- The name of a text that comes from no file. -/
def anonymous : String := "<tree>"

/-- Whether a text is meant to be tree notation. -/
def isNotation (text : String) : Bool :=
  (text.toList.dropWhile Text.isBlank).head? == some '('

def readAll (name text : String) : Logged (List Tree) := do
  let trees ← .ofExcept (Notation.readTrees (some name) text)
  .report (Notation.readRecord name trees.length)
  return trees

def readOne (name text : String) : Logged Tree := do
  let trees ← readAll name text
  .ofExcept (Notation.single trees)

/-- Reading a text gives what the reader gives. -/
theorem result_readAll (name text : String) :
    (readAll name text).result = Notation.readTrees (some name) text := by
  rw [readAll, Logged.result_bind, Logged.result_ofExcept]
  cases Notation.readTrees (some name) text with
  | error fault => rfl
  | ok trees => rfl

theorem result_readOne (name text : String) :
    (readOne name text).result = Notation.readTree (some name) text := by
  rw [readOne, Logged.result_bind, result_readAll]
  rfl

def openFile (store : Store) (name : String) : Except Fault String :=
  (store.openRead name).mapError fun failure => .cannotOpen failure name

def readFile (store : Store) (name : String) : Logged Tree := do
  let text ← .ofExcept (openFile store name)
  readOne name text

def read (store : Store) : Input → Logged Tree
  | .text contents =>
    if isNotation contents then readOne anonymous contents else readFile store contents
  | .tree tree => pure tree
  | .file name contents => readOne (name.getD anonymous) contents
  | .other value => .ofExcept (.error (.notAFile value.shown))

/-- Why a value that is no text does not lead to a file.  A number of the size of a
machine word stands for an open file. -/
def handleFault : Value → Fault
  | .number value =>
    if value < -0x80000000 ∨ 0x80000000 ≤ value then .notAFileName (Value.number value).type
    else if value < 0 then .negativeFile
    else .closedFile
  | .flag _ => .closedFile
  | value => .notAFileName value.type

/-- Read a tree from a file that is open or named.  Text is always taken for a name,
and a tree is not taken at all. -/
def readHandle (store : Store) : Input → Logged Tree
  | .text name => readFile store name
  | .tree _ => .ofExcept (.error (.notAFileName "Node"))
  | .other value => .ofExcept (.error (handleFault value))
  | .file name contents => readOne (name.getD anonymous) contents

def renderTree (settings : Settings) (tree : Tree) : Logged String := do
  let written := Render.renderTree tree
  let text ← (⟨written.records, written.result⟩ : Logged String)
  .report ⟨.debug, .service, "Rendered " ++ toString (Text.lineFeeds text) ++ " lines"⟩
  if settings.highlighted then Highlight.apply settings text else return text

/-- Dump a tree: on one line in compact notation, or as an outline. -/
def dumpTree (settings : Settings) (tree : Tree) : Logged String :=
  if settings.isOn "one_line" then
    .ofExcept ((Notation.compact tree).map fun line => line ++ "\n")
  else pure (Outline.render tree)

def render (store : Store) (settings : Settings) (input : Input) : Logged String := do
  renderTree settings (← read store input)

def dump (store : Store) (settings : Settings) (input : Input) : Logged String := do
  dumpTree settings (← read store input)

/-- Write a text into a file.  The file is emptied before the text is produced, and
stays so if that fails. -/
def intoFile (store : Store) (target : String) (produce : Store → Logged String) :
    Store × Logged Unit :=
  match store.openWrite target with
  | .error failure => (store, .ofExcept (.error (.cannotOpen failure target)))
  | .ok place =>
    let emptied := store.insert place ""
    let logged := produce emptied
    match logged.result with
    | .error fault => (emptied, ⟨logged.records, .error fault⟩)
    | .ok text => (emptied.insert place text, ⟨logged.records, .ok ()⟩)

end NescTree.Service
