import NescTree.Proofs.Notation.ClosingQuote
import NescTree.Proofs.Notation.Cutting

/-!
# What stands between tokens

Blanks, and comments that end with their line, can stand between tokens.  At the end of
a text there may also be a comment without a line end, or a string that is not closed.
A text cannot end in both ways, since its pieces tell which of them it is.
-/

namespace NescTree.Notation

def IsLineEnd (char : Char) : Prop := char = '\r' ∨ char = '\n'

/-- Blanks, and comments up to the end of their line. -/
inductive Filler : List Char → Prop
  | nil : Filler []
  | blank {char : Char} {rest : List Char} (hblank : char ∈ [' ', '\t', '\r', '\n'])
      (hrest : Filler rest) : Filler (char :: rest)
  | comment {body : List Char} {last : Char} {rest : List Char}
      (hbody : ∀ char ∈ body, ¬ IsLineEnd char) (hlast : IsLineEnd last)
      (hrest : Filler rest) : Filler (';' :: (body ++ last :: rest))

/-- What can stand after the last token: the last comment may go to the end of the
text. -/
def TrailingFiller (text : List Char) : Prop :=
  Filler text ∨ ∃ skipped body, text = skipped ++ ';' :: body ∧ Filler skipped ∧
    ∀ char ∈ body, ¬ IsLineEnd char

/-- Whether a string starts, perhaps after some filler, that has no end. -/
def OpenString (text : List Char) : Prop :=
  ∃ skipped body, text = skipped ++ '"' :: body ∧ Filler skipped ∧
    ∀ index, ¬ ClosesAt body index

theorem Filler.append {first second : List Char} (hfirst : Filler first)
    (hsecond : Filler second) : Filler (first ++ second) := by
  induction hfirst with
  | nil => exact hsecond
  | blank hblank hrest ih => exact .blank hblank ih
  | comment hbody hlast hrest ih =>
    rw [List.cons_append, List.append_assoc, List.cons_append]
    exact .comment hbody hlast ih

theorem isGap_iff {char : Char} : isGap char = true ↔ char ∈ [' ', '\t', '\r', '\n'] := by
  simp [isGap, or_assoc]

theorem cutComment_of_isLineEnd {char : Char} (hend : IsLineEnd char) (rest : List Char) :
    cutComment (char :: rest) = ([char], rest) := by
  obtain rfl | rfl := hend <;> rfl

theorem cutComment_of_not_isLineEnd {char : Char} (hend : ¬ IsLineEnd char)
    (rest : List Char) :
    cutComment (char :: rest) = (char :: (cutComment rest).1, (cutComment rest).2) := by
  obtain ⟨hreturn, hfeed⟩ := not_or.1 hend
  simp [cutComment, hreturn, hfeed]

/-- A comment goes up to the first line end. -/
theorem cutComment_closed {body : List Char} (hbody : ∀ char ∈ body, ¬ IsLineEnd char)
    {last : Char} (hlast : IsLineEnd last) (rest : List Char) :
    cutComment (body ++ last :: rest) = (body ++ [last], rest) := by
  induction body with
  | nil => exact cutComment_of_isLineEnd hlast rest
  | cons char body ih =>
    obtain ⟨hchar, hbody⟩ := List.forall_mem_cons.1 hbody
    rw [List.cons_append, cutComment_of_not_isLineEnd hchar, ih hbody, List.cons_append]

/-- A comment without a line end goes up to the end of the text. -/
theorem cutComment_open {body : List Char} (hbody : ∀ char ∈ body, ¬ IsLineEnd char) :
    cutComment body = (body, []) := by
  induction body with
  | nil => rfl
  | cons char body ih =>
    obtain ⟨hchar, hbody⟩ := List.forall_mem_cons.1 hbody
    rw [cutComment_of_not_isLineEnd hchar, ih hbody]

/-- Either a text has no line end, or there is a first one. -/
theorem exists_first_isLineEnd (text : List Char) :
    (∀ char ∈ text, ¬ IsLineEnd char) ∨
      ∃ body last rest, text = body ++ last :: rest ∧ (∀ char ∈ body, ¬ IsLineEnd char) ∧
        IsLineEnd last := by
  induction text with
  | nil => exact .inl (by simp)
  | cons char text ih =>
    by_cases hend : IsLineEnd char
    · exact .inr ⟨[], char, text, rfl, by simp, hend⟩
    · obtain hopen | ⟨body, last, rest, rfl, hbody, hlast⟩ := ih
      · exact .inl (List.forall_mem_cons.2 ⟨hend, hopen⟩)
      · exact .inr ⟨char :: body, last, rest, rfl, List.forall_mem_cons.2 ⟨hend, hbody⟩, hlast⟩

/-- A comment ends with its line, or with the text. -/
theorem comment_cases {body rest : List Char}
    (hends : (Piece.comment body).EndsAt rest) :
    (∃ inner last, body = inner ++ [last] ∧ (∀ char ∈ inner, ¬ IsLineEnd char) ∧
      IsLineEnd last) ∨ (rest = [] ∧ ∀ char ∈ body, ¬ IsLineEnd char) := by
  have hcut : cutComment (body ++ rest) = (body, rest) := hends
  obtain hopen | ⟨inner, last, remaining, htext, hinner, hlast⟩ :=
    exists_first_isLineEnd (body ++ rest)
  · rw [cutComment_open hopen] at hcut
    obtain ⟨-, rfl⟩ := Prod.mk.inj hcut
    exact .inr ⟨rfl, by simpa using hopen⟩
  · rw [htext, cutComment_closed hinner hlast] at hcut
    obtain ⟨rfl, rfl⟩ := Prod.mk.inj hcut
    exact .inl ⟨inner, last, rfl, hinner, hlast⟩

/-- Filler is cut into pieces of its own, none of which is an open string. -/
theorem pieces_filler {skipped : List Char} (hskipped : Filler skipped) (rest : List Char) :
    ∃ parts, pieces (skipped ++ rest) = parts ++ pieces rest ∧
      parts.any Piece.isUnclosed = false := by
  induction hskipped with
  | nil => exact ⟨[], rfl, rfl⟩
  | @blank char skipped hblank hskipped ih =>
    obtain ⟨parts, hparts, hclosed⟩ := ih
    have hcut : cut char (skipped ++ rest) = (.gap char, skipped ++ rest) :=
      cut_eq_of_endsAt (isGap_iff.2 hblank) rfl
    refine ⟨.gap char :: parts, ?_, hclosed⟩
    rw [List.cons_append, pieces, hcut, hparts, List.cons_append]
  | @comment body last skipped hbody hlast hskipped ih =>
    obtain ⟨parts, hparts, hclosed⟩ := ih
    have htext : ';' :: (body ++ last :: skipped) ++ rest =
        ';' :: (body ++ last :: (skipped ++ rest)) := by simp
    have hcut : cut ';' (body ++ last :: (skipped ++ rest)) =
        (.comment (body ++ [last]), skipped ++ rest) := by
      simp [cut, cutComment_closed hbody hlast]
    refine ⟨.comment (body ++ [last]) :: parts, ?_, hclosed⟩
    rw [htext, pieces, hcut, hparts, List.cons_append]

theorem TrailingFiller.any_isUnclosed {text : List Char} (htext : TrailingFiller text) :
    (pieces text).any Piece.isUnclosed = false := by
  obtain hfiller | ⟨skipped, body, rfl, hskipped, hbody⟩ := htext
  · obtain ⟨parts, hparts, hclosed⟩ := pieces_filler hfiller []
    rw [List.append_nil, pieces, List.append_nil] at hparts
    rw [hparts, hclosed]
  · obtain ⟨parts, hparts, hclosed⟩ := pieces_filler hskipped (';' :: body)
    have hcut : cut ';' body = (.comment body, []) := by
      simp [cut, cutComment_open hbody]
    rw [hparts, pieces, hcut, pieces, List.any_append, hclosed]
    rfl

theorem OpenString.any_isUnclosed {text : List Char} (htext : OpenString text) :
    (pieces text).any Piece.isUnclosed = true := by
  obtain ⟨skipped, body, rfl, hskipped, hopen⟩ := htext
  obtain ⟨parts, hparts, hclosed⟩ := pieces_filler hskipped ('"' :: body)
  have hcut : cut '"' body = (.unclosed body, []) := by
    simp [cut, cutString_eq_none_iff.2 hopen]
  rw [hparts, pieces, hcut, pieces, List.any_append, hclosed]
  rfl

/-- Filler at the end of a text is not taken for a string that is not closed. -/
theorem TrailingFiller.not_openString {text : List Char} (htext : TrailingFiller text) :
    ¬ OpenString text := by
  intro hopen
  have hcontra := htext.any_isUnclosed
  rw [hopen.any_isUnclosed] at hcontra
  cases hcontra

end NescTree.Notation
