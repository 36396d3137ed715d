import NescTree.Notation.Piece
import NescTree.Notation.Quoting

/-!
# Quoted strings and where they end

Escaping a text gives a string that ends at its own last quote, whatever follows
it, and that has the text as its meaning.  The same holds of the strings that can
be written as they are.  In the other direction, every string that is cut from a
text has a meaning.
-/

namespace NescTree.Notation

theorem cutString_backslash (char : Char) (rest : List Char) :
    cutString ('\\' :: char :: rest) =
      (cutString rest).map fun cut => ('\\' :: char :: cut.1, cut.2) := by
  simp [cutString]

theorem cutString_quote (rest : List Char) : cutString ('"' :: rest) = some (['"'], rest) := by
  simp [cutString]

theorem cutString_plain {char : Char} (hbackslash : char ≠ '\\') (hquote : char ≠ '"')
    (rest : List Char) :
    cutString (char :: rest) = (cutString rest).map fun cut => (char :: cut.1, cut.2) := by
  rw [cutString.eq_def]
  split <;> simp_all

/-- A character that starts neither of the cases for a backslash is none. -/
theorem ne_backslash {char : Char} {rest : List Char} (hlast : char = '\\' → rest = [] → False)
    (hmore : ∀ next more, char = '\\' → rest = next :: more → False) : char ≠ '\\' := by
  intro hbackslash
  cases rest with
  | nil => exact hlast hbackslash rfl
  | cons next more => exact hmore next more hbackslash rfl

theorem unescapeInner_plain {char : Char} (hbackslash : char ≠ '\\') (rest : List Char) :
    unescapeInner (char :: rest) = (unescapeInner rest).map (char :: ·) := by
  rw [unescapeInner.eq_def]
  split <;> simp_all

/-- A string that is cut from a text is also cut from every longer text. -/
theorem cutString_append_right {text body remaining : List Char}
    (hcut : cutString text = some (body, remaining)) (more : List Char) :
    cutString (text ++ more) = some (body, remaining ++ more) := by
  fun_induction cutString text generalizing body with
  | case1 => simp at hcut
  | case2 => simp at hcut
  | case3 char rest ih =>
    obtain ⟨⟨front, back⟩, hfront, heq⟩ := Option.map_eq_some_iff.1 hcut
    obtain ⟨rfl, rfl⟩ := Prod.mk.inj heq
    simp [cutString_backslash, ih hfront]
  | case4 char rest _ _ hquote =>
    obtain ⟨rfl, rfl⟩ := Prod.mk.inj (Option.some.inj hcut)
    obtain rfl : char = '"' := by simpa using hquote
    simp [cutString_quote]
  | case5 char rest hlast hmore hquote ih =>
    obtain ⟨⟨front, back⟩, hfront, heq⟩ := Option.map_eq_some_iff.1 hcut
    obtain ⟨rfl, rfl⟩ := Prod.mk.inj heq
    simp [cutString_plain (ne_backslash hlast hmore) (by simpa using hquote), ih hfront]

/-- A string that is cut from a text is a whole string without what follows it. -/
theorem cutString_body {text body remaining : List Char}
    (hcut : cutString text = some (body, remaining)) : cutString body = some (body, []) := by
  fun_induction cutString text generalizing body with
  | case1 => simp at hcut
  | case2 => simp at hcut
  | case3 char rest ih =>
    obtain ⟨⟨front, back⟩, hfront, heq⟩ := Option.map_eq_some_iff.1 hcut
    obtain ⟨rfl, rfl⟩ := Prod.mk.inj heq
    simp [cutString_backslash, ih hfront]
  | case4 char rest _ _ hquote =>
    obtain ⟨rfl, rfl⟩ := Prod.mk.inj (Option.some.inj hcut)
    obtain rfl : char = '"' := by simpa using hquote
    exact cutString_quote []
  | case5 char rest hlast hmore hquote ih =>
    obtain ⟨⟨front, back⟩, hfront, heq⟩ := Option.map_eq_some_iff.1 hcut
    obtain ⟨rfl, rfl⟩ := Prod.mk.inj heq
    simp [cutString_plain (ne_backslash hlast hmore) (by simpa using hquote), ih hfront]

/-- An escaped text, followed by a quote, is a string up to that quote. -/
theorem cutString_escapeInner (text rest : List Char) :
    cutString (escapeInner text ++ '"' :: rest) =
      some (escapeInner text ++ ['"'], rest) := by
  induction text with
  | nil => exact cutString_quote rest
  | cons char text ih =>
    by_cases hspecial : (char == '\\' || char == '"') = true
    · simp [escapeInner, hspecial, cutString_backslash, ih]
    · have hplain : char ≠ '\\' ∧ char ≠ '"' := by simpa using hspecial
      simp [escapeInner, hplain.1, hplain.2, cutString_plain, ih]

theorem unescapeInner_escapeInner (text : List Char) :
    unescapeInner (escapeInner text) = .ok text := by
  induction text with
  | nil => rfl
  | cons char text ih =>
    by_cases hspecial : (char == '\\' || char == '"') = true
    · simp [escapeInner, hspecial, unescapeInner, ih, Except.map]
    · have hplain : char ≠ '\\' ∧ char ≠ '"' := by simpa using hspecial
      simp [escapeInner, hplain.1, hplain.2, unescapeInner_plain, ih, Except.map]

theorem toList_escape (text : String) :
    (escape text).toList = '"' :: (escapeInner text.toList ++ ['"']) := by
  simp [escape]

/-- Reading an escaped text gives the text back. -/
theorem unescape_escape (text : String) : unescape (escape text) = .ok text := by
  have hinner : withoutEnds (escape text).toList = escapeInner text.toList := by
    simp [toList_escape, withoutEnds]
  simp [unescape, hinner, unescapeInner_escapeInner, Except.map]

/-- An escaped text can be told from what follows it. -/
theorem escape_append_inj {first second : String} {rest otherRest : List Char}
    (heq : (escape first).toList ++ rest = (escape second).toList ++ otherRest) :
    first = second ∧ rest = otherRest := by
  rw [toList_escape, toList_escape, List.cons_append, List.cons_append, List.append_assoc,
    List.append_assoc] at heq
  have hcut := congrArg cutString (List.cons.inj heq).2
  rw [List.singleton_append, List.singleton_append, cutString_escapeInner,
    cutString_escapeInner] at hcut
  obtain ⟨hbody, hrest⟩ := Prod.mk.inj (Option.some.inj hcut)
  have hescape : escape first = escape second := by
    apply String.toList_injective
    rw [toList_escape, toList_escape, hbody]
  have hmeaning := unescape_escape first
  rw [hescape, unescape_escape] at hmeaning
  exact ⟨(Except.ok.inj hmeaning).symm, hrest⟩

/-- The inside of a plain string, followed by a quote, is a string up to that quote. -/
theorem cutString_of_isPlainInner {inner : List Char} (hplain : isPlainInner inner = true)
    (rest : List Char) :
    cutString (inner ++ '"' :: rest) = some (inner ++ ['"'], rest) := by
  fun_induction isPlainInner inner with
  | case1 => exact cutString_quote rest
  | case2 => simp at hplain
  | case3 char inner ih => simp [cutString_backslash, ih hplain]
  | case4 char inner hlast hmore ih =>
    simp only [Bool.and_eq_true, bne_iff_ne] at hplain
    obtain ⟨⟨⟨hquote, -⟩, -⟩, hinner⟩ := hplain
    simp [cutString_plain (ne_backslash hlast hmore) hquote, ih hinner]

/-- A string that can be written as it is stands between two quotes. -/
theorem eq_quoted_of_isRawString {text : List Char} (hraw : isRawString text = true) :
    ∃ inner, text = '"' :: (inner ++ ['"']) ∧ isPlainInner inner = true := by
  simp only [isRawString, Bool.and_eq_true, decide_eq_true_eq, beq_iff_eq] at hraw
  obtain ⟨⟨⟨hlength, hfirst⟩, hlast⟩, hplain⟩ := hraw
  obtain ⟨tail, rfl⟩ := List.head?_eq_some_iff.1 hfirst
  have htail : tail ≠ [] := by
    rintro rfl
    simp at hlength
  have hend : tail.getLast? = some '"' := by
    rwa [List.getLast?_cons_of_ne_nil htail] at hlast
  obtain ⟨inner, rfl⟩ := List.getLast?_eq_some_iff.1 hend
  exact ⟨inner, rfl, by simpa [withoutEnds] using hplain⟩

/-- What is cut off as a string ends with a quote, and what stands before the quote can
be freed of its backslashes. -/
theorem unescapeInner_of_cutString {text body remaining : List Char}
    (hcut : cutString text = some (body, remaining)) :
    ∃ inner meaning, body = inner ++ ['"'] ∧ unescapeInner inner = .ok meaning := by
  fun_induction cutString text generalizing body with
  | case1 => simp at hcut
  | case2 => simp at hcut
  | case3 char rest ih =>
    obtain ⟨⟨front, back⟩, hfront, heq⟩ := Option.map_eq_some_iff.1 hcut
    obtain ⟨rfl, rfl⟩ := Prod.mk.inj heq
    obtain ⟨inner, meaning, rfl, hinner⟩ := ih hfront
    exact ⟨'\\' :: char :: inner, char :: meaning, rfl, by
      simp [unescapeInner, hinner, Except.map]⟩
  | case4 char rest _ _ hquote =>
    obtain ⟨rfl, rfl⟩ := Prod.mk.inj (Option.some.inj hcut)
    obtain rfl : char = '"' := by simpa using hquote
    exact ⟨[], [], rfl, rfl⟩
  | case5 char rest hlast hmore hquote ih =>
    obtain ⟨⟨front, back⟩, hfront, heq⟩ := Option.map_eq_some_iff.1 hcut
    obtain ⟨rfl, rfl⟩ := Prod.mk.inj heq
    obtain ⟨inner, meaning, rfl, hinner⟩ := ih hfront
    exact ⟨char :: inner, char :: meaning, rfl, by
      simp [unescapeInner_plain (ne_backslash hlast hmore), hinner, Except.map]⟩

/-- A quote, and a text up to the quote that closes the string. -/
def IsQuoted (value : String) : Prop :=
  ∃ body, value.toList = '"' :: body ∧ cutString body = some (body, [])

/-- Every string that ends at its own last quote has a meaning. -/
theorem IsQuoted.exists_unescape {value : String} (hquoted : IsQuoted value) :
    ∃ meaning, unescape value = .ok meaning := by
  obtain ⟨body, hvalue, hcut⟩ := hquoted
  obtain ⟨inner, meaning, rfl, hinner⟩ := unescapeInner_of_cutString hcut
  exact ⟨String.ofList meaning, by simp [unescape, withoutEnds, hvalue, hinner, Except.map]⟩

theorem isQuoted_escape (text : String) : IsQuoted (escape text) :=
  ⟨escapeInner text.toList ++ ['"'], toList_escape text, cutString_escapeInner text.toList []⟩

theorem isQuoted_of_isRawString {value : String} (hraw : isRawString value.toList = true) :
    IsQuoted value := by
  obtain ⟨inner, hvalue, hplain⟩ := eq_quoted_of_isRawString hraw
  exact ⟨inner ++ ['"'], hvalue, cutString_of_isPlainInner hplain []⟩

end NescTree.Notation
