/-
# Dirty marks

Two counters tell whether a store has changes that are not written. Every change
counts the set mark up; a save raises the write mark to the set mark that it
writes. Each operation is one atomic step on the counters, but for the claim,
which reads one and then raises the other.

Key definitions: `DirtyMarks`, `DirtyMarks.markDirty`, `DirtyMarks.raise`,
`DirtyMarks.claim`, `DirtyMarks.publish`, `DirtyMarks.rollback`, `DirtyMarks.isClean`.
-/

namespace TypedConfig

/-- The two counters. -/
structure DirtyMarks where
  /-- How many changes were made. -/
  set : UInt64 := 0
  /-- How many changes are written, or are about to be. -/
  write : UInt64 := 0
deriving DecidableEq

namespace DirtyMarks

/-- Counts a change. -/
def markDirty (m : DirtyMarks) : DirtyMarks := { m with set := m.set + 1 }

/-- Whether nothing is left to write. -/
def isClean (m : DirtyMarks) : Bool := decide (m.set ≤ m.write)

/-- Raises the write mark to `mark`, unless it is there already. -/
def raise (m : DirtyMarks) (mark : UInt64) : DirtyMarks := { m with write := max m.write mark }

/-- The claim of a save that has read the set mark `current`: the write mark before, if it was
lower, and the marks with the write mark raised. -/
def claimAt (m : DirtyMarks) (current : UInt64) : Option UInt64 × DirtyMarks :=
  (if m.write < current then some m.write else none, m.raise current)

/-- Claims all changes so far for a save: the write mark before, if there are any. -/
def claim (m : DirtyMarks) : Option UInt64 × DirtyMarks := m.claimAt m.set

/-- Raises the write mark to that of a snapshot. -/
def publish (m : DirtyMarks) (snapshot : UInt64) : DirtyMarks := m.raise snapshot

/-- Takes a failed save back: the write mark goes from `published` to `previous`, unless another
save has moved it on. -/
def rollback (m : DirtyMarks) (published previous : UInt64) : DirtyMarks :=
  if m.write = published then { m with write := previous } else m

end DirtyMarks

end TypedConfig
