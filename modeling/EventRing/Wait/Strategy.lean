import EventRing.Backoff
/-!
# EventRing.Wait.Strategy

The ways a consumer can wait for a sequence.  A `Strategy` is chosen for the ring; each consumer gets
a `Waiter` from it, which for the hybrid strategy depends on the consumer's tag.
-/

namespace EventRing.Wait

/-- How consumers of a ring wait. -/
inductive Strategy where
  /-- Pause and look again. -/
  | busySpin
  /-- Pause `tries` times, then yield between looks. -/
  | yielding (tries : Nat)
  /-- Pause for half of the retries, yield for the other half, then sleep between looks. -/
  | sleeping (retries nanoseconds : Nat)
  /-- Park until a publication. -/
  | blocking
  /-- Spin for consumers with one of the tags, back off for all others. -/
  | hybrid (tags : List String)
  /-- Park until a publication, for a limited time. -/
  | timeoutBlocking (milliseconds : Nat)
  /-- Pause `tries` times, then yield between looks, for a limited time. -/
  | timeoutYielding (milliseconds tries : Nat)
  /-- Suspend a task until a publication; threads park. -/
  | task
  /-- Suspend a task until a publication, for a limited time; threads park. -/
  | timeoutTask (milliseconds : Nat)
  deriving DecidableEq, Repr

/-- How one consumer waits. -/
inductive Waiter where
  | spinning
  | backingOff
  | yielding (tries : Nat)
  | sleeping (retries : Nat)
  /-- Parks a thread; `timed` if it gives up at a deadline. -/
  | parking (timed : Bool)
  /-- Yields after `tries` pauses and gives up at a deadline. -/
  | budgeted (tries : Nat)
  /-- Suspends a task, parks a thread; `timed` if it gives up at a deadline. -/
  | suspending (timed : Bool)
  deriving DecidableEq, Repr

namespace Strategy

/-- Consumers may be parked or suspended, so publications have to wake them. -/
def parks : Strategy → Bool
  | .blocking | .timeoutBlocking _ | .task | .timeoutTask _ => true
  | _ => false

/-- After how many milliseconds a parked or suspended waiter gives up, if ever. -/
def timeout : Strategy → Option Nat
  | .timeoutBlocking ms | .timeoutTask ms => some ms
  | _ => none

/-- How many looks with a pause a waiter takes in a millisecond. -/
def looksPerMillisecond : Nat := 20000

/-- After how many milliseconds any waiter gives up, if ever.  One that pauses does not look at the
clock before its tries are used up. -/
def budget : Strategy → Option Nat
  | .timeoutYielding ms tries => some (max ms (tries / looksPerMillisecond))
  | strategy => strategy.timeout

/-- For how many milliseconds a sleeping waiter does not look. -/
def nap : Strategy → Nat
  | .sleeping _ nanoseconds => nanoseconds / 1000000
  | _ => 0

/-- The consumer is one of those that spin under a hybrid strategy with these tags. -/
def isAggressive (tags : List String) (owner : Option String) : Bool :=
  match owner with
  | none => false
  | some tag => tags.contains tag

/-- The waiter of a consumer with or without a tag. -/
def waiter (owner : Option String) : Strategy → Waiter
  | .busySpin => .spinning
  | .yielding tries => .yielding tries
  | .sleeping retries _ => .sleeping retries
  | .blocking => .parking false
  | .hybrid tags => if isAggressive tags owner then .spinning else .backingOff
  | .timeoutBlocking _ => .parking true
  | .timeoutYielding _ tries => .budgeted tries
  | .task => .suspending false
  | .timeoutTask _ => .suspending true

end Strategy

end EventRing.Wait
