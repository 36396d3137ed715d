/-!
# Output on its way to a file

What is written to a file does not reach it at once.  It waits in two stages: the first
passes on what it has when a piece would make it too much, or when it is enough, and the
second when more comes than it can hold.  Only when the file is closed is everything in
it.  Until then a reader of the file sees less than was written, but never more and never
in another order.
-/

namespace NescTree

/-- What has reached a file, and what waits in either stage, in the order in which it
was written. -/
structure Spool where
  stored : String
  held : String
  pending : String
  deriving DecidableEq, Repr

namespace Spool

def empty : Spool := ⟨"", "", ""⟩

def text (spool : Spool) : String := spool.stored ++ spool.held ++ spool.pending

/-- The number of bytes that the first stage collects. -/
def pendingLimit : Nat := 8192

/-- The number of bytes that the second stage can hold. -/
def heldLimit : Nat := 4096

/-- Move on what is pending.  It is held if there is room, and replaces what is held if
that makes room. -/
def pass (spool : Spool) : Spool :=
  if spool.held.utf8ByteSize + spool.pending.utf8ByteSize ≤ heldLimit then
    ⟨spool.stored, spool.held ++ spool.pending, ""⟩
  else if spool.pending.utf8ByteSize ≤ heldLimit then
    ⟨spool.stored ++ spool.held, spool.pending, ""⟩
  else ⟨spool.stored ++ spool.held ++ spool.pending, "", ""⟩

def append (spool : Spool) (piece : String) : Spool :=
  { spool with pending := spool.pending ++ piece }

/-- Write a piece of text, which is never divided. -/
def write (spool : Spool) (piece : String) : Spool :=
  let ready := if pendingLimit < spool.pending.utf8ByteSize + piece.utf8ByteSize then spool.pass
    else spool
  let grown := ready.append piece
  if pendingLimit ≤ grown.pending.utf8ByteSize then grown.pass else grown

@[simp]
theorem text_pass (spool : Spool) : spool.pass.text = spool.text := by
  unfold pass text
  split
  · simp [String.append_assoc]
  · split <;> simp

@[simp]
theorem text_append (spool : Spool) (piece : String) :
    (spool.append piece).text = spool.text ++ piece := by
  simp [append, text, String.append_assoc]

@[simp]
theorem text_write (spool : Spool) (piece : String) :
    (spool.write piece).text = spool.text ++ piece := by
  simp only [write]
  split <;> split <;> simp

end Spool

end NescTree
