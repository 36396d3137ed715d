import NescTree.Fault
import NescTree.Log

/-!
# Work that reports

A computation that reports records on its way and may fail.  What was reported
before a failure is kept.
-/

namespace NescTree

structure Logged (α : Type) where
  records : List Record
  result : Except Fault α

namespace Logged

/-- Nothing is reported. -/
def ofExcept {α : Type} (result : Except Fault α) : Logged α := ⟨[], result⟩

def report (record : Record) : Logged Unit := ⟨[record], .ok ()⟩

def bind {α β : Type} (logged : Logged α) (next : α → Logged β) : Logged β :=
  match logged.result with
  | .error fault => ⟨logged.records, .error fault⟩
  | .ok value =>
    let following := next value
    ⟨logged.records ++ following.records, following.result⟩

instance : Monad Logged where
  pure value := ofExcept (.ok value)
  bind := bind

@[simp]
theorem result_ofExcept {α : Type} (result : Except Fault α) :
    (ofExcept result).result = result := rfl

/-- Reports do not change the result. -/
theorem result_bind {α β : Type} (logged : Logged α) (next : α → Logged β) :
    (logged >>= next).result = logged.result.bind fun value => (next value).result := by
  change (bind logged next).result = _
  rw [bind]
  cases logged.result with
  | error fault => rfl
  | ok value => rfl

end Logged

end NescTree
