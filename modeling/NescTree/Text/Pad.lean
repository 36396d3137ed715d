/-!
# Padded columns

Numbers and labels that line up: a short text is filled on its left, a long one
is left as it is.
-/

namespace NescTree.Text

/-- Right-align a text in a column of the given width. -/
def padLeft (width : Nat) (fill : Char) (text : String) : String :=
  String.ofList (List.replicate (width - text.length) fill) ++ text

def spaces (count : Nat) : String :=
  String.ofList (List.replicate count ' ')

end NescTree.Text
