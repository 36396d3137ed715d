import Mathlib.Data.List.Basic
import NescTree.Text.Blank

/-!
# Words

White space parts a text into words.  Squeezing a text puts single spaces between its words,
so texts are the same once they are squeezed exactly when they have the same words.
-/

namespace NescTree.Text

/-- The words of a text: the runs of characters between its blanks. -/
def words (text : List Char) : List (List Char) :=
  (text.splitOnP isBlank).filter (· ≠ [])

/-- A text with one space for each run of blanks, and no blanks around it. -/
def squeezed (text : List Char) : List Char := [' '].intercalate (words text)

@[simp]
theorem words_nil : words [] = [] := by simp [words]

/-- A blank parts the words before it from those after it. -/
theorem words_append_cons {blank : Char} (hblank : isBlank blank = true)
    (before after : List Char) :
    words (before ++ blank :: after) = words before ++ words after := by
  rw [words, List.splitOnP_append_cons before after hblank, List.filter_append]
  rfl

def IsSolid (text : List Char) : Prop := text ≠ [] ∧ ∀ char ∈ text, isBlank char = false

instance (text : List Char) : Decidable (IsSolid text) :=
  @instDecidableAnd _ _ inferInstance (List.decidableBAll _ _)

/-- A word stays one with marks after it. -/
theorem isSolid_append {word marks : List Char} (hword : ∀ char ∈ word, isBlank char = false)
    (hmarks : IsSolid marks) : IsSolid (word ++ marks) := by
  constructor
  · simp [hmarks.1]
  · intro char hmem
    obtain hmem | hmem := List.mem_append.1 hmem
    · exact hword char hmem
    · exact hmarks.2 char hmem

theorem words_of_isSolid {word : List Char} (hword : IsSolid word) : words word = [word] := by
  rw [words, List.splitOnP_eq_singleton hword.2]
  simp [hword.1]

theorem not_isBlank_of_mem_splitOnP {text piece : List Char}
    (hpiece : piece ∈ text.splitOnP isBlank) : ∀ char ∈ piece, isBlank char = false := by
  induction text generalizing piece with
  | nil =>
    rw [List.splitOnP_nil, List.mem_singleton] at hpiece
    simp [hpiece]
  | cons first text ih =>
    obtain ⟨next, pieces, hnext⟩ :=
      List.exists_cons_of_ne_nil (List.splitOnP_ne_nil isBlank text)
    rw [List.splitOnP_cons_eq_if_modifyHead] at hpiece
    cases hfirst : isBlank first with
    | true =>
      rw [if_pos hfirst, List.mem_cons] at hpiece
      obtain rfl | hpiece := hpiece
      · simp
      · exact ih hpiece
    | false =>
      rw [if_neg (by simp [hfirst]), hnext, List.modifyHead_cons, List.mem_cons] at hpiece
      rw [hnext] at ih
      obtain rfl | hpiece := hpiece
      · exact List.forall_mem_cons.2 ⟨hfirst, ih List.mem_cons_self⟩
      · exact ih (List.mem_cons_of_mem next hpiece)

theorem isSolid_of_mem_words {text word : List Char} (hword : word ∈ words text) :
    IsSolid word := by
  rw [words, List.mem_filter] at hword
  exact ⟨by simpa using hword.2, not_isBlank_of_mem_splitOnP hword.1⟩

theorem words_intercalate {texts : List (List Char)} (htexts : ∀ text ∈ texts, IsSolid text) :
    words ([' '].intercalate texts) = texts := by
  induction texts with
  | nil => simp
  | cons text texts ih =>
    obtain ⟨htext, hrest⟩ := List.forall_mem_cons.1 htexts
    cases texts with
    | nil => rw [List.intercalate_singleton, words_of_isSolid htext]
    | cons next texts =>
      rw [List.intercalate_cons_cons, List.append_assoc, List.singleton_append,
        words_append_cons (by decide), words_of_isSolid htext, ih hrest, List.singleton_append]

/-- Squeezing keeps the words of a text and nothing else. -/
theorem squeezed_eq_iff {text other : List Char} :
    squeezed text = squeezed other ↔ words text = words other := by
  constructor
  · intro hsqueezed
    calc words text = words (squeezed text) :=
          (words_intercalate fun _ hword => isSolid_of_mem_words hword).symm
      _ = words (squeezed other) := by rw [hsqueezed]
      _ = words other := words_intercalate fun _ hword => isSolid_of_mem_words hword
  · intro hwords
    rw [squeezed, squeezed, hwords]

section Splits

variable {text other : List Char} {found more : List (List Char)}

/-- Whether the words of a text stay the same in front of every other text. -/
def Splits (text : List Char) (found : List (List Char)) : Prop :=
  ∀ rest, words (text ++ rest) = found ++ words rest

namespace Splits

theorem words_eq (htext : Splits text found) : words text = found := by
  simpa using htext []

theorem nil : Splits [] [] := fun _ => rfl

theorem append (htext : Splits text found) (hother : Splits other more) :
    Splits (text ++ other) (found ++ more) := by
  intro rest
  rw [List.append_assoc, htext, hother, List.append_assoc]

theorem blank {char : Char} (hchar : isBlank char = true) (htext : Splits text found) :
    Splits (char :: text) found := by
  intro rest
  have hwords := words_append_cons hchar [] (text ++ rest)
  rwa [words_nil, List.nil_append, List.nil_append, htext] at hwords

theorem spaces (count : Nat) (htext : Splits text found) :
    Splits (List.replicate count ' ' ++ text) found := by
  induction count with
  | zero => exact htext
  | succ count ih => exact blank (by decide) ih

/-- A word and the blank after it. -/
theorem word {run : List Char} {char : Char} (hrun : IsSolid run) (hchar : isBlank char = true)
    (htext : Splits text found) : Splits (run ++ char :: text) (run :: found) := by
  intro rest
  rw [List.append_assoc, List.cons_append, words_append_cons hchar, words_of_isSolid hrun, htext]
  rfl

/-- A word and a space. -/
theorem spaced {run : List Char} (hrun : IsSolid run) (htext : Splits text found) :
    Splits (run ++ ' ' :: text) (run :: found) :=
  word hrun (by decide) htext

/-- A word at the end of a line. -/
theorem ended {run : List Char} (hrun : IsSolid run) (htext : Splits text found) :
    Splits (run ++ '\n' :: text) (run :: found) :=
  word hrun (by decide) htext

theorem flatMap {α : Type} {items : List α} {textOf : α → List Char}
    {wordsOf : α → List (List Char)}
    (hitems : ∀ item ∈ items, Splits (textOf item) (wordsOf item)) :
    Splits (items.flatMap textOf) (items.flatMap wordsOf) := by
  induction items with
  | nil => exact nil
  | cons item items ih =>
    obtain ⟨hitem, hrest⟩ := List.forall_mem_cons.1 hitems
    exact append hitem (ih hrest)

end Splits

end Splits

end NescTree.Text
