import Mathlib.Data.List.TakeWhile

/-!
# Runs of characters

A run of characters of one class, followed by a character that is not in the class or by
nothing, can be told from what follows it.
-/

namespace NescTree.Text

variable {isPart : Char → Bool}

/-- Whether a text does not start with a character of a class. -/
def StartsOutside (isPart : Char → Bool) (text : List Char) : Prop :=
  ∀ char ∈ text.head?, isPart char = false

@[simp]
theorem startsOutside_nil : StartsOutside isPart [] := by
  simp [StartsOutside]

@[simp]
theorem startsOutside_cons {char : Char} {text : List Char} :
    StartsOutside isPart (char :: text) ↔ isPart char = false := by
  simp [StartsOutside]

theorem takeWhile_run_append {run rest : List Char} (hrun : ∀ char ∈ run, isPart char = true)
    (hrest : StartsOutside isPart rest) : (run ++ rest).takeWhile isPart = run := by
  have hnone : rest.takeWhile isPart = [] := by
    cases rest with
    | nil => rfl
    | cons char rest => exact List.takeWhile_cons_of_neg (by simpa using hrest)
  rw [List.takeWhile_append_of_pos hrun, hnone, List.append_nil]

/-- Runs that are followed by something else are recovered with what follows them. -/
theorem run_append_inj {run other rest otherRest : List Char}
    (hrun : ∀ char ∈ run, isPart char = true) (hother : ∀ char ∈ other, isPart char = true)
    (hrest : StartsOutside isPart rest) (hotherRest : StartsOutside isPart otherRest)
    (heq : run ++ rest = other ++ otherRest) : run = other ∧ rest = otherRest := by
  have htake := congrArg (List.takeWhile isPart) heq
  rw [takeWhile_run_append hrun hrest, takeWhile_run_append hother hotherRest] at htake
  subst htake
  exact ⟨rfl, List.append_cancel_left heq⟩

/-- Texts without a character can be told apart from it on. -/
theorem append_cons_inj {first second rest otherRest : List Char} {mark : Char}
    (hfirst : mark ∉ first) (hsecond : mark ∉ second)
    (heq : first ++ mark :: rest = second ++ mark :: otherRest) :
    first = second ∧ rest = otherRest := by
  have hother : ∀ {text : List Char}, mark ∉ text → ∀ char ∈ text, (char != mark) = true := by
    intro text hmark char hmem
    rw [bne_iff_ne]
    rintro rfl
    exact hmark hmem
  have hinj := run_append_inj (hother hfirst) (hother hsecond) (by simp) (by simp) heq
  simpa using hinj

end NescTree.Text
