import NescTree.CommandLine.Switch
import NescTree.Text.Decimal
import NescTree.Text.Quoted

/-!
# Words of a command line

Every argument is either an operand or a switch.  A switch can be shortened as long
as it stays unique, and can carry its value in the same word.  After two hyphens
everything is an operand.
-/

namespace NescTree.CommandLine

inductive UsageError where
  | ambiguous (word : String) (matching : List String)
  | expectedValue (switch : Switch)
  | ignoredValue (switch : Switch) (value : String)
  | invalidLevel (value : String)
  | cannotOpen (failure : OpenFailure) (name : String)
  | missingOperand
  | unrecognized (words : List String)
  deriving DecidableEq, Repr

def UsageError.message : UsageError → String
  | .ambiguous word matching =>
    "ambiguous option: " ++ word ++ " could match " ++ ", ".intercalate matching
  | .expectedValue switch => "argument " ++ switch.title ++ ": expected one argument"
  | .ignoredValue switch value =>
    "argument " ++ switch.title ++ ": ignored explicit argument " ++ Text.quoted value
  | .invalidLevel value =>
    "argument " ++ Switch.log.title ++ ": invalid log_level value: " ++ Text.quoted value
  | .cannotOpen .hasNull name =>
    "argument " ++ Switch.output.title ++ ": invalid FileType(\x27w\x27) value: " ++
      Text.quoted name
  | .cannotOpen failure name =>
    "argument " ++ Switch.output.title ++ ": can\x27t open \x27" ++ name ++ "\x27: " ++
      failure.message name
  | .missingOperand => "the following arguments are required: tree-file"
  | .unrecognized words => "unrecognized arguments: " ++ " ".intercalate words

/-- A switch found in a word, the name it goes by, and the value in the same word. -/
structure Found where
  switch : Switch
  name : String
  value? : Option String
  deriving DecidableEq, Repr

inductive Word where
  | operand (text : String)
  /-- The two hyphens after which everything is an operand. -/
  | separator
  | switch (found : Found)
  /-- A word that looks like a switch and is none. -/
  | unknown (text : String)
  deriving DecidableEq, Repr

def splitValue (word : List Char) : String × Option String :=
  let isOther := fun char => char != '='
  (String.ofList (word.takeWhile isOther),
    match word.dropWhile isOther with
    | [] => none
    | _ :: value => some (String.ofList value))

/-- The readings of a word as a shortened switch with two hyphens. -/
def longReadings (table : List (String × Switch)) (word : List Char) : List Found :=
  let (stem, value?) := splitValue word
  table.filterMap fun (name, switch) =>
    if stem.toList.isPrefixOf name.toList then some ⟨switch, name, value?⟩ else none

/-- The readings of a word as a switch with one hyphen, followed by its value or by
more switches. -/
def shortReadings (table : List (String × Switch)) (word : List Char) : List Found :=
  table.filterMap fun (name, switch) =>
    if name.toList = word.take 2 then some ⟨switch, name, some (String.ofList (word.drop 2))⟩
    else if word.isPrefixOf name.toList then some ⟨switch, name, none⟩
    else none

def dropLineFeed (word : List Char) : List Char :=
  if word.getLast? = some '\n' then word.dropLast else word

/-- Whether a word is a hyphen and a decimal number, with or without a point.  A line
feed may follow. -/
def isNegativeNumber (word : List Char) : Bool :=
  match dropLineFeed word with
  | '-' :: number =>
    let whole := number.takeWhile Text.isDecimal
    match number.dropWhile Text.isDecimal with
    | [] => !whole.isEmpty
    | '.' :: fraction => !fraction.isEmpty && fraction.all Text.isDecimal
    | _ => false
  | _ => false

def classifyInexact (table : List (String × Switch)) (word : String) :
    Except UsageError Word :=
  let chars := word.toList
  let readings := if chars.take 2 = ['-', '-'] then longReadings table chars
    else shortReadings table chars
  match readings with
  | [found] => .ok (.switch found)
  | [] =>
    if isNegativeNumber chars || chars.contains ' ' then .ok (.operand word)
    else .ok (.unknown word)
  | _ => .error (.ambiguous word (readings.map Found.name))

/-- What a word is that stands before any separator. -/
def classify (table : List (String × Switch)) (word : String) : Except UsageError Word :=
  match word.toList with
  | '-' :: _ :: _ =>
    match table.lookup word with
    | some switch => .ok (.switch ⟨switch, word, none⟩)
    | none =>
      match splitValue word.toList with
      | (stem, some value) =>
        match table.lookup stem with
        | some switch => .ok (.switch ⟨switch, stem, some value⟩)
        | none => classifyInexact table word
      | (_, none) => classifyInexact table word
  | _ => .ok (.operand word)

def classifyAll (table : List (String × Switch)) : List String → Except UsageError (List Word)
  | [] => .ok []
  | word :: words =>
    if word = "--" then .ok (.separator :: words.map Word.operand)
    else do
      let first ← classify table word
      let rest ← classifyAll table words
      return first :: rest

end NescTree.CommandLine
