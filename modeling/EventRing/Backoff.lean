/-!
# EventRing.Backoff

How a spinning thread spaces its looks: first pauses that double in length, then yields.  Only the
step counts here; the pauses themselves take no part in any answer.
-/

namespace EventRing

/-- How far a spinning thread has backed off. -/
structure Backoff where
  step : Nat := 0
  deriving DecidableEq, Repr

namespace Backoff

/-- The last step that pauses; after it a thread yields. -/
def spinLimit : Nat := 6

/-- The last step that still counts; after it every wait is the same. -/
def yieldLimit : Nat := 10

/-- A pause, twice as long as the one before. -/
def spin (b : Backoff) : Backoff := if b.step ≤ spinLimit then ⟨b.step + 1⟩ else b

/-- A pause while pausing helps, a yield afterwards. -/
def snooze (b : Backoff) : Backoff :=
  if b.step ≤ spinLimit then b.spin else if b.step ≤ yieldLimit then ⟨b.step + 1⟩ else b

/-- Back to the shortest pause. -/
def reset (_ : Backoff) : Backoff := {}

/-- Nothing changes any more by waiting on. -/
def isCompleted (b : Backoff) : Bool := decide (yieldLimit < b.step)

/-- A wait does something `times` times over; once it changes nothing, it never will again. -/
def repeated (act : Backoff → Backoff) : Nat → Backoff → Backoff
  | 0, b => b
  | times + 1, b => if act b = b then b else repeated act times (act b)

end Backoff

end EventRing
