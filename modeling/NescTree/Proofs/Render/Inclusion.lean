import Mathlib.Data.List.Chain
import Mathlib.Data.List.SplitBy
import NescTree.Render.Doc

/-!
# Including headers

What a line directive leads to is a matter of two things, whether it names a header
and whether the contents of a header are being skipped.  In the name of a header that
is written, each run of backslashes becomes half as many forward slashes, rounded up.
-/

namespace NescTree.Render

/-- How a run of equal characters in the name of a header is written. -/
def slashRun (run : List Char) : List Char :=
  if run.head? = some '\\' then List.replicate ((run.length + 1) / 2) '/' else run

section ForwardSlashes

theorem forwardSlashes_cons {char : Char} (hchar : char ≠ '\\') (rest : List Char) :
    forwardSlashes (char :: rest) = char :: forwardSlashes rest := by
  rw [forwardSlashes]
  · simp [hchar]
  · simp [hchar]

theorem forwardSlashes_plain_append {run : List Char} (hrun : ∀ char ∈ run, char ≠ '\\')
    (rest : List Char) : forwardSlashes (run ++ rest) = run ++ forwardSlashes rest := by
  induction run with
  | nil => rfl
  | cons char run ih =>
    obtain ⟨hchar, htail⟩ := List.forall_mem_cons.1 hrun
    rw [List.cons_append, forwardSlashes_cons hchar, ih htail]
    rfl

/-- A run of backslashes is written in pairs, with a last one on its own. -/
theorem forwardSlashes_backslashes_append (count : Nat) {rest : List Char}
    (hrest : rest.head? ≠ some '\\') :
    forwardSlashes (List.replicate count '\\' ++ rest) =
      List.replicate ((count + 1) / 2) '/' ++ forwardSlashes rest := by
  induction count using Nat.twoStepInduction with
  | zero => rfl
  | one =>
    cases rest with
    | nil => rfl
    | cons next rest =>
      have hnext : next ≠ '\\' := by simpa using hrest
      simp [forwardSlashes, hnext]
  | more count ih _ =>
    have hhalf : (count + 2 + 1) / 2 = (count + 1) / 2 + 1 := by omega
    rw [hhalf, List.replicate_succ, List.replicate_succ, List.replicate_succ, List.cons_append,
      List.cons_append, forwardSlashes, ih]
    rfl

theorem forwardSlashes_run_append {run rest : List Char} (hne : run ≠ [])
    (hrun : run.IsChain (· = ·)) (hrest : run.getLast? ≠ rest.head?) :
    forwardSlashes (run ++ rest) = slashRun run ++ forwardSlashes rest := by
  obtain ⟨char, tail, rfl⟩ := List.exists_cons_of_ne_nil hne
  have hreplicate : char :: tail = List.replicate (tail.length + 1) char :=
    List.isChain_eq_iff_eq_replicate.1 hrun char rfl
  by_cases hchar : char = '\\'
  · subst hchar
    have hhead : rest.head? ≠ some '\\' := by
      intro hhead
      rw [hreplicate, hhead, List.getLast?_replicate] at hrest
      simp at hrest
    have hslash : slashRun ('\\' :: tail) = List.replicate ((tail.length + 1 + 1) / 2) '/' := rfl
    rw [hslash, hreplicate, forwardSlashes_backslashes_append _ hhead]
  · have hplain : ∀ member ∈ char :: tail, member ≠ '\\' := by
      intro member hmember
      rw [hreplicate] at hmember
      rwa [List.eq_of_mem_replicate hmember]
    rw [forwardSlashes_plain_append hplain, slashRun, if_neg (by simpa using hchar)]

/-- In a name, each maximal run of backslashes is written as half as many forward
slashes, rounded up, and all else as it is. -/
theorem forwardSlashes_eq_flatMap_splitBy (name : List Char) :
    forwardSlashes name = (name.splitBy (· == ·)).flatMap slashRun := by
  have hruns : ∀ runs : List (List Char), [] ∉ runs →
      (∀ run ∈ runs, run.IsChain fun first second => (first == second) = true) →
      (runs.IsChain fun run next => ∃ hrun hnext,
        (run.getLast hrun == next.head hnext) = false) →
      forwardSlashes runs.flatten = runs.flatMap slashRun := by
    intro runs hnil hequal hapart
    induction runs with
    | nil => rfl
    | cons run runs ih =>
      have hne : run ≠ [] := by
        rintro rfl
        simp at hnil
      have hrest : run.getLast? ≠ runs.flatten.head? := by
        cases runs with
        | nil => simp [hne]
        | cons next runs =>
          obtain ⟨hrun, hnext, hdiffers⟩ := (List.isChain_cons_cons.1 hapart).1
          simpa [List.getLast?_eq_some_getLast hrun, List.head?_eq_some_head hnext] using hdiffers
      rw [List.flatten_cons, forwardSlashes_run_append hne (by simpa using hequal run) hrest,
        ih (by simp_all) (by simp_all) hapart.tail, List.flatMap_cons]
  obtain ⟨hflatten, hnil, hequal, hapart⟩ := List.splitBy_eq_iff.1 (rfl : name.splitBy _ = _)
  rw [← hruns _ hnil hequal hapart, ← hflatten]

theorem mem_forwardSlashes {char : Char} {name : List Char} (hchar : char ∈ forwardSlashes name) :
    char = '/' ∨ char ∈ name := by
  fun_induction forwardSlashes name with
  | case1 => simp at hchar
  | case2 rest ih => grind
  | case3 first rest _ ih => grind

end ForwardSlashes

namespace HeaderMode

theorem mode_enterFile (mode : HeaderMode) (name : String) :
    (mode.enterFile name).mode = if isHeaderName name.toList then .skipping else .emitting := by
  by_cases hheader : isHeaderName name.toList = true <;> cases mode <;> simp [enterFile, hheader]

/-- A directive is written when a header is entered from the main file. -/
theorem include?_enterFile (mode : HeaderMode) (name : String) :
    (mode.enterFile name).include? =
      if isHeaderName name.toList ∧ mode = .emitting then
        some ("#include " ++ String.ofList (forwardSlashes name.toList))
      else none := by
  by_cases hheader : isHeaderName name.toList = true <;> cases mode <;> simp [enterFile, hheader]

end HeaderMode

def shownName (name : String) : String := String.ofList (forwardSlashes name.toList)

/-- What a line directive writes: an include directive, or nothing. -/
theorem text_run_directive (name : String) (state : State) :
    ((Doc.directive (some name)).run state).text =
      if isHeaderName name.toList ∧ state.headers = .emitting then
        "#include " ++ shownName name ++ "\n"
      else "" := by
  simp only [Doc.run, HeaderMode.include?_enterFile]
  by_cases hincluded : isHeaderName name.toList ∧ state.headers = .emitting
  · rw [if_pos hincluded, if_pos hincluded]
    rfl
  · rw [if_neg hincluded, if_neg hincluded]

end NescTree.Render
