/-!
# Limits of size

Numbers that index or count have to fit into a machine word.  What is said here is only
when a machine refuses a number, whatever memory it has.
-/

namespace NescTree

/-- Why something of a given size is refused. -/
inductive SizeFailure where
  /-- A number does not fit into a word. -/
  | noWord
  /-- The length of a text does not fit into a word. -/
  | tooLong
  deriving DecidableEq, Repr

namespace Size

/-- The numbers of a signed word lie below this one and not below its opposite. -/
def wordLimit : Int := 0x8000000000000000

def fitsWord (number : Int) : Bool :=
  -wordLimit ≤ number && number < wordLimit

/-- Why a piece of text of some length cannot be repeated, if it cannot.  A count below
zero repeats it no time. -/
def repetition? (length : Nat) (count : Int) : Option SizeFailure :=
  if !fitsWord count then some .noWord
  else if wordLimit ≤ length * count then some .tooLong
  else none

theorem fitsWord_eq_true_iff (number : Int) :
    fitsWord number = true ↔ -wordLimit ≤ number ∧ number < wordLimit := by
  simp [fitsWord]

theorem repetition?_eq_none_iff (length : Nat) (count : Int) :
    repetition? length count = none ↔
      -wordLimit ≤ count ∧ count < wordLimit ∧ length * count < wordLimit := by
  rw [repetition?, ← and_assoc, ← fitsWord_eq_true_iff]
  cases fitsWord count <;> simp

end Size

end NescTree
