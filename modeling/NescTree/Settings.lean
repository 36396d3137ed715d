import NescTree.Fault

/-!
# Output settings

How trees are rendered and dumped.  Settings have names and may hold any value;
whether a setting is on is a question of its value.
-/

namespace NescTree

inductive Value where
  | absent
  | flag (value : Bool)
  | number (value : Int)
  | text (value : String)
  | list (items : List Value)
  | table (entries : List (String × Value))
  deriving Inhabited, Repr

namespace Value

def isOn : Value → Bool
  | .absent => false
  | .flag value => value
  | .number value => value != 0
  | .text value => !value.isEmpty
  | .list items => !items.isEmpty
  | .table entries => !entries.isEmpty

/-- The type of a value, as messages name it. -/
def type : Value → String
  | .absent => "NoneType"
  | .flag _ => "bool"
  | .number _ => "int"
  | .text _ => "str"
  | .list _ => "list"
  | .table _ => "dict"

mutual

/-- A value as it is shown inside others, where texts are quoted. -/
def inner : Value → String
  | .absent => "None"
  | .flag true => "True"
  | .flag false => "False"
  | .number value => toString value
  | .text value => Text.quoted value
  | .list items => "[" ++ ", ".intercalate (innerItems items) ++ "]"
  | .table entries => "\x7b" ++ ", ".intercalate (innerEntries entries) ++ "\x7d"

def innerItems : List Value → List String
  | [] => []
  | item :: items => inner item :: innerItems items

def innerEntries : List (String × Value) → List String
  | [] => []
  | (name, value) :: entries =>
    (Text.quoted name ++ ": " ++ inner value) :: innerEntries entries

end

/-- A value as it is shown in messages. -/
def shown : Value → String
  | .text value => value
  | value => value.inner

end Value

structure Settings where
  entries : List (String × Value)
  deriving Repr

namespace Settings

def initial : Settings :=
  ⟨[("color", .flag false), ("html", .flag false), ("one_line", .flag false),
    ("style", .text "default")]⟩

def get? (settings : Settings) (name : String) : Option Value :=
  (settings.entries.find? fun entry => entry.1 == name).map Prod.snd

def get (settings : Settings) (name : String) : Except Fault Value :=
  match settings.get? name with
  | some value => .ok value
  | none => .error (.unknownSetting name)

def set (settings : Settings) (name : String) (value : Value) : Settings :=
  ⟨settings.entries.filter (fun entry => entry.1 != name) ++ [(name, value)]⟩

def isOn (settings : Settings) (name : String) : Bool :=
  ((settings.get? name).map Value.isOn).getD false

/-- Whether output passes through the highlighter. -/
def highlighted (settings : Settings) : Bool :=
  settings.isOn "color" || settings.isOn "html"

end Settings

end NescTree
