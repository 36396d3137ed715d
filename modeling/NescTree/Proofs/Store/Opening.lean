import NescTree.Service

/-!
# Files that do not get in each other's way

What is stored at one place is what was last put there, whatever happens at other places.
Opening a file for reading depends on its own contents and on where there are files and
directories at all, so it does not notice that another file gets other contents.
-/

namespace NescTree.Store

section Contents

variable {store : Store} {place other : Path} {contents : String}

theorem get?_erase_self (store : Store) (place : Path) : (store.erase place).get? place = none := by
  rw [get?, Option.map_eq_none_iff, List.find?_eq_none]
  intro file hfile
  simpa using (List.mem_filter.1 hfile).2

theorem get?_erase_of_ne (hplace : other ≠ place) :
    (store.erase place).get? other = store.get? other := by
  simp only [get?, erase, List.find?_filter]
  congr 2
  funext file
  by_cases hfile : file.1 = other
  · simp [hfile, hplace]
  · simp [hfile]

theorem get?_insert_self (store : Store) (place : Path) (contents : String) :
    (store.insert place contents).get? place = some contents := by
  have hnone := get?_erase_self store place
  rw [get?, Option.map_eq_none_iff] at hnone
  rw [get?, insert, List.find?_append, hnone]
  simp

theorem get?_insert_of_ne (hplace : other ≠ place) :
    (store.insert place contents).get? other = store.get? other :=
  calc (store.insert place contents).get? other
      = (store.erase place).get? other := by simp [get?, insert, List.find?_append, hplace.symm]
    _ = store.get? other := get?_erase_of_ne hplace

/-- Whether there is a file does not depend on its contents. -/
theorem isSome_get?_insert (hplace : (store.get? place).isSome = true) (other : Path) :
    ((store.insert place contents).get? other).isSome = (store.get? other).isSome := by
  by_cases hother : other = place
  · rw [hother, get?_insert_self, hplace]
    rfl
  · rw [get?_insert_of_ne hother]

end Contents

section Opening

variable {store : Store} {place : Path} {contents : String}

/-- The same steps can be taken whatever a file contains. -/
theorem step_insert (hplace : (store.get? place).isSome = true) :
    (store.insert place contents).step = store.step := by
  funext start part
  rw [step, step, isSome_get?_insert hplace]
  rfl

theorem eq_descend_of_step {start next : Path} {part : String}
    (hstep : store.step start part = .ok next) : next = start.descend part := by
  rw [step] at hstep
  by_cases hdirectory : (!store.isDirectory start) = true
  · rw [if_pos hdirectory] at hstep
    cases hstep
  · rw [if_neg hdirectory] at hstep
    by_cases hlong : partLimit < part.utf8ByteSize
    · rw [if_pos hlong] at hstep
      cases hstep
    · rw [if_neg hlong] at hstep
      exact (Except.ok.inj hstep).symm

/-- Steps that can be taken lead where the name says. -/
theorem eq_foldl_of_foldlM_step {parts : List String} {start final : Path}
    (hsteps : parts.foldlM store.step start = .ok final) :
    final = parts.foldl Path.descend start := by
  induction parts generalizing start with
  | nil =>
    cases hsteps
    rfl
  | cons part parts ih =>
    rw [List.foldlM_cons] at hsteps
    cases hstep : store.step start part with
    | error failure =>
      rw [hstep] at hsteps
      cases hsteps
    | ok next =>
      rw [hstep] at hsteps
      rw [List.foldl_cons, ← eq_descend_of_step hstep]
      exact ih hsteps

/-- A file is read as before if another one has got other contents. -/
theorem openRead_insert (hplace : (store.get? place).isSome = true) {name : String}
    (hname : Path.ofName name ≠ place) :
    (store.insert place contents).openRead name = store.openRead name := by
  rw [openRead, openRead, step_insert hplace]
  cases checkName name with
  | error failure => rfl
  | ok _ =>
    cases hsteps : (Path.parts name).foldlM store.step (Path.origin name) with
    | error failure => rfl
    | ok final =>
      have hfinal : final ≠ place := by
        rw [eq_foldl_of_foldlM_step hsteps]
        exact hname
      have hcontents := @get?_insert_of_ne store place final contents hfinal
      simp only [bind, Except.bind, hcontents]
      rfl

end Opening

end NescTree.Store
