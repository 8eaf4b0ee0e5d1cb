/-!
A wait that is cut off after a while.
-/

namespace Multiplex

inductive Race
  | done
  | elapsed
  deriving DecidableEq, Repr

namespace Race

/-- How a wait of `wait` milliseconds, or without end, comes out against `limit`, and when. A tie
goes to the wait. -/
def finish (wait : Option Nat) (limit : Nat) : Race × Nat :=
  match wait with
  | some w => if w ≤ limit then (.done, w) else (.elapsed, limit)
  | none => (.elapsed, limit)

def at? (wait : Option Nat) (limit now : Nat) : Option (Race × Nat) :=
  let (r, time) := finish wait limit
  if time ≤ now then some (r, time) else none

def elapsedText : String := "operation timed out"

end Race

end Multiplex
