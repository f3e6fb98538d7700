import EventRing.Threads
import EventRing.Wait.Waiter
/-!
# EventRing.Wait.Watch

Waits among threads.  A `Watch` says what a waiter finds in a shared state, and how often waiters were
woken.  A parked or suspended waiter hears only of wakings that came after it last looked, so a
sequence that becomes available without one goes unnoticed until the next waking or the deadline.

A waiter that is woken looks at what it finds by then, and may have to park again.  One that sleeps
between its looks misses what comes and goes while it sleeps.
-/

namespace EventRing.Wait

/-- What a waiter watches in a state of type `σ`. -/
structure Watch (σ : Type) where
  /-- What the waiter finds, its deadline and its wakings left out. -/
  observe : σ → Except Fault Observation
  /-- How often parked and suspended waiters were woken. -/
  wakings : σ → Nat

namespace Watch

variable {σ task : Type} [Shared σ task] (watch : Watch σ) (target : Int) (deadline : Option Nat)

/-- What a waiter finds that has heard of so many wakings already. -/
def sight (heard : Nat) (s : σ) : Except Fault Observation := do
  let o ← watch.observe s
  return { o with
    woken := watch.wakings s ≠ heard
    expired := deadline.any (· ≤ (Shared.threads s).now) }

/-- A waiter that is stuck in a phase has something to do. -/
def isMoved (heard : Nat) (stuck : Phase) (s : σ) : Bool :=
  match watch.sight deadline heard s with
  | .ok o => stuck.isMoved target o
  | .error _ => true

/-- The pause of a waiter that is stuck in a phase, and that has heard of so many wakings. -/
def pauseIn (nap heard : Nat) (stuck : Phase) (s : σ) : Pause σ :=
  if stuck.naps && 0 < nap then
    { ready := fun _ => false, deadline := some ((Shared.threads s).now + nap) }
  else
    { ready := watch.isMoved target deadline heard stuck
      deadline := if stuck.heedsDeadline then deadline else none }

/-- Goes on with a waiter from a phase on, with at most `fuel` stops. -/
def follow (nap : Nat) : Nat → Nat → Phase → Strand σ Outcome
  | 0, _, _ => throw .exhausted
  | fuel + 1, heard, phase => do
    let s ← get
    match phase.resume target (← MonadExcept.ofExcept (watch.sight deadline heard s)) with
    | .inr outcome => return outcome
    | .inl stuck =>
      let heard := watch.wakings s
      Strand.pause (watch.pauseIn target deadline nap heard stuck s)
      follow nap fuel heard stuck

/-- Waits from a phase on as a strategy has it, with at most `fuel` stops. -/
def wait (fuel : Nat) (strategy : Strategy) (phase : Phase) : Strand σ Outcome := do
  let s ← get
  let deadline := strategy.budget.map fun milliseconds =>
    (Shared.threads s).now + max 1 milliseconds
  follow watch target deadline strategy.nap fuel (watch.wakings s) phase

end Watch

end EventRing.Wait
