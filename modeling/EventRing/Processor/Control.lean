import EventRing.Failure
/-!
# EventRing.Processor.Control

Whether a processor runs.  A run begins from idle and ends in idle; a halt moves to halted from
anywhere, and a run that finds itself halted before it began only passes through its start and
shutdown hooks.  A second run is refused while one is active.
-/

namespace EventRing

/-- The state of a processor. -/
inductive RunState where
  | idle
  | halted
  | running
  deriving DecidableEq, Repr

/-- How a run goes on after it began. -/
inductive RunMode where
  /-- Handle events until halted. -/
  | run
  /-- Call the start and shutdown hooks only. -/
  | earlyExit
  deriving DecidableEq, Repr

/-- What a processor and those who control it share. -/
structure Control where
  state : RunState := .idle
  /-- The start hook of the current run was called. -/
  started : Bool := false
  deriving DecidableEq, Repr

namespace Control

/-- Begins a run, unless one is active. -/
def begin (c : Control) : Except RingError (RunMode × Control) :=
  match c.state with
  | .idle => .ok (.run, { c with state := .running })
  | .halted => .ok (.earlyExit, c)
  | .running => .error .alreadyRunning

/-- Tells those who wait for the start. -/
def announce (c : Control) : Control := { c with started := true }

/-- Ends a run. -/
def finish (_ : Control) : Control := {}

/-- The first half of a halt; the second cancels the barrier of the processor. -/
def halt (c : Control) : Control := { c with state := .halted }

/-- The processor is in a run and not halted. -/
def isActive (c : Control) : Bool := c.state = .running

/-- The processor is not idle; a halted one counts until its run ends. -/
def isRunning (c : Control) : Bool := c.state ≠ .idle

end Control

end EventRing
