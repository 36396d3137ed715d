import NescTree.Text.Pad
import NescTree.Text.Printable

/-!
# Quoted names

How a file name or an argument is shown in a message: between quotation marks,
with everything that cannot be printed written as an escape sequence.
-/

namespace NescTree.Text

/-- The mark around a name.  It is an apostrophe, unless the name holds one and
holds no double quote. -/
def quotationMark (name : List Char) : Char :=
  if name.contains '\x27' && !name.contains '"' then '"' else '\x27'

def hexadecimal (width : Nat) (number : Nat) : String :=
  padLeft width '0' (String.ofList (Nat.toDigits 16 number))

/-- A character inside a quoted name. -/
def quotedChar (mark char : Char) : String :=
  if char == mark || char == '\\' then "\\" ++ char.toString
  else if char == '\n' then "\\n"
  else if char == '\r' then "\\r"
  else if char == '\t' then "\\t"
  else if isPrintable char then char.toString
  else if char.toNat < 0x100 then "\\x" ++ hexadecimal 2 char.toNat
  else if char.toNat < 0x10000 then "\\u" ++ hexadecimal 4 char.toNat
  else "\\U" ++ hexadecimal 8 char.toNat

def quoted (name : String) : String :=
  let mark := quotationMark name.toList
  mark.toString ++ String.join (name.toList.map (quotedChar mark)) ++ mark.toString

end NescTree.Text
