import EventRing.Sequencer.Publish
import EventRing.Wait.Waiter
/-!
# EventRing.Barrier

A barrier is where a consumer waits for its next sequence.  It stands behind some counters, those of
the consumers in front, or behind the cursor if there are none; it can be cancelled and armed again.

What a barrier lets through need not be published: the cursor of many producers runs ahead of the
publications.  `published` cuts an outcome at the first hole.  It may then fall short of what was
waited for, and the consumer has to come back.  Behind other consumers there are no holes, since they
only move past published events.
-/

namespace EventRing

/-- A place to wait. -/
structure Barrier where
  /-- The counters of the consumers in front; none means the cursor. -/
  front : List CounterId
  waiter : Wait.Waiter
  /-- What is in front may have holes. -/
  scans : Bool
  cancelled : Bool := false

namespace Barrier

variable {g : Geometry}

/-- A barrier behind some counters of a sequencer. -/
def make (s : Sequencer g) (waiter : Wait.Waiter) (front : List CounterId) : Barrier where
  front := front
  waiter := waiter
  scans := s.producers = .many && front.isEmpty

/-- What a consumer at the barrier may see, holes included. -/
def value (b : Barrier) (s : Sequencer g) : Int := s.counters.behind b.front s.cursor

/-- What a waiter at the barrier finds. -/
def observe (b : Barrier) (s : Sequencer g) : Wait.Observation where
  cursor := s.cursor
  value := b.value s
  cancelled := b.cancelled

/-- Comes to the barrier: a wait that need not begin ends at once, a cancellation first. -/
def enter (b : Barrier) (side : Wait.Side) (target : Int) (s : Sequencer g) :
    Wait.Phase ⊕ Wait.Outcome :=
  if b.cancelled then .inr .cancelled
  else if target ≤ b.value s then .inr (.available (b.value s))
  else .inl (b.waiter.begin side)

/-- The end of the run of published sequences from `lower` on, if there may be holes. -/
def highestPublished (b : Barrier) (s : Sequencer g) (lower available : Int) : Except Fault Int :=
  if b.scans then s.highestPublished lower available else return available

/-- An outcome cut at the first hole from `target` on. -/
def published (b : Barrier) (s : Sequencer g) (target : Int) :
    Wait.Outcome → Except Fault Wait.Outcome
  | .available sequence => .available <$> b.highestPublished s target sequence
  | outcome => return outcome

/-- Ends all waits at the barrier until it is armed again. -/
def cancel (b : Barrier) : Barrier := { b with cancelled := true }

/-- Arms the barrier again. -/
def rearm (b : Barrier) : Barrier := { b with cancelled := false }

end Barrier

end EventRing
