import Mathlib.Data.List.TakeWhile
import NescTree.Notation.Token

/-!
# The only way to cut a text

A piece ends where the text after it begins if cutting could not have gone on any
further.  A list of pieces in which every piece does so is separated.  The pieces
of a text are the only separated list that spells the text, so to know the pieces
of a text it is enough to write some down.
-/

namespace NescTree.Notation

/-- Whether a piece ends exactly where the rest of the text begins. -/
def Piece.EndsAt (rest : List Char) : Piece → Prop
  | .gap char => isGap char = true
  | .comment body => cutComment (body ++ rest) = (body, rest)
  | .opening | .closing => True
  | .word chars => isBareWord chars = true ∧ ∀ char ∈ rest.head?, isStop char = true
  | .string body => cutString (body ++ rest) = some (body, rest)
  | .unclosed body => cutString body = none ∧ rest = []

def Separated : List Piece → Prop
  | [] => True
  | piece :: rest => piece.EndsAt (rest.flatMap Piece.chars) ∧ Separated rest

@[simp]
theorem separated_nil : Separated [] := trivial

@[simp]
theorem separated_cons (piece : Piece) (rest : List Piece) :
    Separated (piece :: rest) ↔
      piece.EndsAt (rest.flatMap Piece.chars) ∧ Separated rest := Iff.rfl

theorem isStop_of_isGap {char : Char} (hgap : isGap char = true) : isStop char = true := by
  simp [isStop, hgap]

theorem not_isStop_of_mem_bareWord {chars : List Char} {char : Char}
    (hword : isBareWord chars = true) (hmem : char ∈ chars) : isStop char = false := by
  simp only [isBareWord, Bool.and_eq_true, List.all_eq_true] at hword
  simpa using hword.2 char hmem

theorem isBareWord_cons_iff {first : Char} {rest : List Char} :
    isBareWord (first :: rest) = true ↔
      isStop first = false ∧ ∀ char ∈ rest, isStop char = false := by
  simp [isBareWord]

theorem bareWord_ne_nil {chars : List Char} (hword : isBareWord chars = true) :
    chars ≠ [] := by
  rintro rfl
  simp [isBareWord] at hword

/-- Cutting gives a piece that ends where the remaining text begins. -/
theorem endsAt_cut (first : Char) (rest : List Char) :
    (cut first rest).1.EndsAt (cut first rest).2 := by
  unfold cut
  split
  · trivial
  split
  · trivial
  split
  · simp [Piece.EndsAt, cutComment_append]
  split
  · split
    · rename_i body remaining hcut
      have happend := cutString_append hcut
      simp only [Piece.EndsAt]
      rw [happend, hcut]
    · rename_i hcut
      exact ⟨hcut, rfl⟩
  split
  · rename_i hgap
    exact hgap
  · rename_i hopen hclose hcomment hquote hgap
    have hfirst : isStop first = false := by
      simp [isStop, hopen, hclose, hcomment, hquote, hgap]
    refine ⟨isBareWord_cons_iff.2 ⟨hfirst, ?_⟩, ?_⟩
    · intro char hchar
      simpa using List.mem_takeWhile_imp hchar
    · intro char hchar
      have hhead := List.head?_dropWhile_not (fun char => !isStop char) rest
      rw [Option.mem_def.1 hchar] at hhead
      simpa using hhead

/-- The word at the start of a text goes up to the first character that ends it. -/
theorem cut_word {first : Char} {chars rest : List Char}
    (hword : isBareWord (first :: chars) = true)
    (hrest : ∀ char ∈ rest.head?, isStop char = true) :
    cut first (chars ++ rest) = (.word (first :: chars), rest) := by
  obtain ⟨hfirst, hchars⟩ := isBareWord_cons_iff.1 hword
  simp only [isStop, Bool.or_eq_false_iff] at hfirst
  obtain ⟨⟨⟨⟨hopen, hclose⟩, hcomment⟩, hquote⟩, hgap⟩ := hfirst
  have hinside : ∀ char ∈ chars, (!isStop char) = true := by
    intro char hchar
    simp [hchars char hchar]
  have hbegin : rest.takeWhile (fun char => !isStop char) = [] ∧
      rest.dropWhile (fun char => !isStop char) = rest := by
    cases rest with
    | nil => exact ⟨rfl, rfl⟩
    | cons char rest => simp [hrest char rfl]
  simp only [cut, hopen, hclose, hcomment, hquote, hgap, Bool.false_eq_true, if_false]
  rw [List.takeWhile_append_of_pos hinside, List.dropWhile_append_of_pos hinside, hbegin.1,
    hbegin.2, List.append_nil]

/-- Cutting finds every piece that ends where the rest of the text begins. -/
theorem cut_eq_of_endsAt {piece : Piece} {first : Char} {rest remaining : List Char}
    (hends : piece.EndsAt remaining) (htext : piece.chars ++ remaining = first :: rest) :
    cut first rest = (piece, remaining) := by
  cases piece with
  | gap char =>
    obtain ⟨rfl, rfl⟩ := List.cons.inj htext
    have hgap : isGap char = true := hends
    have hcases : char = ' ' ∨ char = '\t' ∨ char = '\r' ∨ char = '\n' := by
      simpa [isGap, or_assoc] using hgap
    rcases hcases with rfl | rfl | rfl | rfl <;> rfl
  | comment body =>
    obtain ⟨rfl, rfl⟩ := List.cons.inj htext
    have hcut : cutComment (body ++ remaining) = (body, remaining) := hends
    simp [cut, hcut]
  | opening =>
    obtain ⟨rfl, rfl⟩ := List.cons.inj htext
    rfl
  | closing =>
    obtain ⟨rfl, rfl⟩ := List.cons.inj htext
    rfl
  | word chars =>
    obtain ⟨hword, hremaining⟩ := hends
    cases chars with
    | nil => exact absurd rfl (bareWord_ne_nil hword)
    | cons head chars =>
      obtain ⟨rfl, rfl⟩ := List.cons.inj htext
      exact cut_word hword hremaining
  | string body =>
    obtain ⟨rfl, rfl⟩ := List.cons.inj htext
    have hcut : cutString (body ++ remaining) = some (body, remaining) := hends
    simp [cut, hcut]
  | unclosed body =>
    obtain ⟨hcut, rfl⟩ := hends
    obtain ⟨rfl, rfl⟩ := List.cons.inj htext
    simp [cut, hcut]

theorem chars_ne_nil_of_endsAt {piece : Piece} {remaining : List Char}
    (hends : piece.EndsAt remaining) : piece.chars ≠ [] := by
  cases piece with
  | word chars => exact bareWord_ne_nil hends.1
  | _ => simp [Piece.chars]

theorem separated_pieces (text : List Char) : Separated (pieces text) := by
  fun_induction pieces text with
  | case1 => exact separated_nil
  | case2 first rest ih =>
    refine ⟨?_, ih⟩
    rw [flatMap_chars_pieces]
    exact endsAt_cut first rest

/-- Separated pieces are the pieces of the text they spell. -/
theorem pieces_flatMap_chars {parts : List Piece} (hparts : Separated parts) :
    pieces (parts.flatMap Piece.chars) = parts := by
  induction parts with
  | nil => simp [pieces]
  | cons piece parts ih =>
    obtain ⟨hends, hrest⟩ := hparts
    obtain ⟨first, rest, htext⟩ := List.exists_cons_of_ne_nil
      (List.append_ne_nil_of_left_ne_nil (chars_ne_nil_of_endsAt hends)
        (parts.flatMap Piece.chars))
    rw [List.flatMap_cons, htext, pieces, cut_eq_of_endsAt hends htext, ih hrest]

/-- The pieces of a text are the only separated list that spells it. -/
theorem pieces_eq_iff {text : List Char} {parts : List Piece} :
    pieces text = parts ↔ parts.flatMap Piece.chars = text ∧ Separated parts := by
  constructor
  · rintro rfl
    exact ⟨flatMap_chars_pieces text, separated_pieces text⟩
  · rintro ⟨rfl, hparts⟩
    exact pieces_flatMap_chars hparts

end NescTree.Notation
