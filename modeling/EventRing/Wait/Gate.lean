/-!
# EventRing.Wait.Gate

The gate that threads park on.  A thread enters, and as long as its condition says it is blocked it
parks until somebody signals; with a deadline it looks a last time when the deadline has passed.

Looking and parking are one step: both happen under the gate's lock, and signalling takes that lock.
So a signal comes either before the look, which then sees what was signalled, or after the thread is
parked, which then wakes.
-/

namespace EventRing.Wait.Gate

/-- Where a thread stands that has entered the gate. -/
inductive Phase where
  /-- About to look. -/
  | looking
  /-- Parked until a signal or the deadline. -/
  | parked
  /-- About to look a last time, the deadline having passed. -/
  | lastLook
  deriving DecidableEq, Repr

/-- How a thread leaves the gate. -/
inductive Exit where
  /-- It was not blocked (any more). -/
  | passed
  /-- The deadline passed and it was still blocked. -/
  | gaveUp
  | cancelled
  deriving DecidableEq, Repr

/-- What a thread finds at one step. -/
structure Sight where
  /-- Its condition says it is blocked. -/
  blocked : Bool
  /-- Its wait was cancelled. -/
  cancelled : Bool
  /-- It was signalled, or woke for no reason. -/
  woken : Bool := false
  /-- Its deadline has passed. -/
  expired : Bool := false

/-- One step of a thread in the gate. -/
def step (timed : Bool) (sight : Sight) : Phase → Phase ⊕ Exit
  | .looking =>
    if sight.blocked then
      if sight.cancelled then .inr .cancelled else .inl .parked
    else .inr .passed
  | .parked =>
    if sight.woken then .inl .looking
    else if timed && sight.expired then .inl .lastLook
    else .inl .parked
  | .lastLook => if sight.blocked then .inr .gaveUp else .inr .passed

/-- A thread in the gate whose condition blocks it for its first `blocked` looks.  Signals keep
coming, or else the deadline passes. -/
def passThrough (timed cancelled : Bool) : Nat → Exit
  | 0 => .passed
  | blocked + 1 =>
    if cancelled then .cancelled
    else if timed then
      if blocked = 0 then .passed else .gaveUp
    else passThrough timed cancelled blocked

end EventRing.Wait.Gate
