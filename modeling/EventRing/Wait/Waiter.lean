import EventRing.Wait.Strategy
import EventRing.Wait.Gate
/-!
# EventRing.Wait.Waiter

The wait for a sequence, step by step.  Each step of a waiter makes one `Observation` of what it
watches and either ends the wait or moves to another `Phase`.

Waiters that spin end at the first observation that has the sequence or is cancelled, the sequence
first.  Waiters that park do so only while the *cursor* is short of the sequence: once it is there,
the consumers in front are expected soon, and the wait goes on by spinning.  The deadline of a timed
parking waiter covers the wait for the cursor alone.  A waiting task looks at the cancellation first.

A parked or suspended waiter does not look until it is woken, whatever becomes available meanwhile.

`settle` follows a waiter while nothing moves.  It ends, because a step that changes the phase of a
rested waiter uses up patience; a wait that would go on for ever is answered by the phase it is stuck
in, and `resume` goes on from there.
-/

namespace EventRing.Wait

/-! ## Observations and outcomes -/

/-- What a waiter finds at one step. -/
structure Observation where
  /-- The cursor of the ring. -/
  cursor : Int
  /-- What the consumers in front allow. -/
  value : Int
  /-- The wait was cancelled. -/
  cancelled : Bool
  /-- A parked or suspended waiter was signalled, or woke for no reason. -/
  woken : Bool := false
  /-- The deadline of a timed waiter has passed. -/
  expired : Bool := false
  deriving DecidableEq, Repr

/-- How a wait ends. -/
inductive Outcome where
  /-- Everything up to `sequence` is available; it may be more than was asked for. -/
  | available (sequence : Int)
  | timeout
  | cancelled
  deriving DecidableEq, Repr

/-- The text of a wait that was cancelled. -/
def Outcome.cancelledMessage : String := "sequence wait cancelled"

/-- Whether a waiter is run by a thread or by a task. -/
inductive Side where
  | thread
  | task
  deriving DecidableEq, Repr

/-! ## Phases -/

/-- Where a waiter stands. -/
inductive Phase where
  /-- Looks and pauses. -/
  | spinning
  /-- Looks and backs off. -/
  | backingOff (backoff : Backoff)
  /-- Looks and pauses `left` times more, then yields. -/
  | yielding (left : Nat)
  /-- Looks and pauses, yields or sleeps, by how many of its retries are left. -/
  | sleeping (retries left : Nat)
  /-- Looks and pauses `left` times more, then reads the clock and yields. -/
  | budgeted (left : Nat)
  /-- About to look at the cursor, before entering the gate. -/
  | arriving (timed : Bool)
  /-- In the gate, blocked by the cursor. -/
  | gated (timed : Bool) (gate : Gate.Phase)
  /-- A task that has registered for signals and is about to look at the cursor. -/
  | listening (timed : Bool)
  /-- A task suspended until a signal or the deadline. -/
  | suspended (timed : Bool)
  /-- A task that looks and yields, the cursor being there. -/
  | following
  deriving DecidableEq, Repr

/-- The first phase of a waiter. -/
def Waiter.begin (side : Side) : Waiter → Phase
  | .spinning => .spinning
  | .backingOff => .backingOff {}
  | .yielding tries => .yielding tries
  | .sleeping retries => .sleeping retries retries
  | .parking timed => .arriving timed
  | .budgeted tries => .budgeted tries
  | .suspending timed =>
    match side with
    | .thread => .arriving timed
    | .task => .listening timed

namespace Phase

/-- A look that ends with the sequence or the cancellation, the sequence first. -/
def look (target : Int) (o : Observation) (next : Phase) : Phase ⊕ Outcome :=
  if target ≤ o.value then .inr (.available o.value)
  else if o.cancelled then .inr .cancelled
  else .inl next

/-- What a sleeping waiter has left after a fruitless look: pauses take from the upper half of the
retries, yields from the lower half, and sleeps take nothing. -/
def napped (retries left : Nat) : Nat :=
  if retries / 2 < left then left - 1 else if 0 < left then left - 1 else left

/-- One step of a waiter for `target`. -/
def step (target : Int) (o : Observation) : Phase → Phase ⊕ Outcome
  | .spinning => look target o .spinning
  | .backingOff backoff => look target o (.backingOff backoff.snooze)
  | .yielding left => look target o (.yielding (left - 1))
  | .sleeping retries left => look target o (.sleeping retries (napped retries left))
  | .budgeted 0 =>
    match look target o (.budgeted 0) with
    | .inl phase => if o.expired then .inr .timeout else .inl phase
    | .inr outcome => .inr outcome
  | .budgeted (left + 1) => look target o (.budgeted left)
  | .arriving timed =>
    if o.cursor < target then .inl (.gated timed .looking) else .inl .spinning
  | .gated timed gate =>
    match Gate.step timed ⟨decide (o.cursor < target), o.cancelled, o.woken, o.expired⟩ gate with
    | .inl gate => .inl (.gated timed gate)
    | .inr .passed => .inl .spinning
    | .inr .gaveUp => .inr .timeout
    | .inr .cancelled => .inr .cancelled
  | .listening timed =>
    if o.cancelled then .inr .cancelled
    else if target ≤ o.cursor then .inl .following
    else .inl (.suspended timed)
  | .suspended timed =>
    if o.woken then .inl (.listening timed)
    else if timed && o.expired then .inr .timeout
    else .inl (.suspended timed)
  | .following =>
    if o.cancelled then .inr .cancelled
    else if target ≤ o.value then .inr (.available o.value)
    else .inl .following

/-! ## Waits while nothing moves -/

/-- The same place after all pauses that only count down.  Every look on the way is the same while
nothing moves, so nothing is missed by leaving them out. -/
def rested : Phase → Phase
  | .backingOff _ => .backingOff ⟨Backoff.yieldLimit + 1⟩
  | .yielding _ => .yielding 0
  | .sleeping retries _ => .sleeping retries 0
  | .budgeted _ => .budgeted 0
  | phase => phase

/-- How many more phases a rested waiter can come to while nothing moves. -/
def patience : Phase → Nat
  | .arriving _ => 5
  | .gated _ .looking => 4
  | .gated _ .parked => 3
  | .gated _ .lastLook => 2
  | .listening _ => 2
  | .suspended _ => 1
  | _ => 0

/-- Follows a waiter under one and the same observation, to the end of its wait or to the phase it
stays in. -/
def settle (target : Int) (o : Observation) (phase : Phase) : Phase ⊕ Outcome :=
  match step target o phase.rested with
  | .inr outcome => .inr outcome
  | .inl next => if next.patience < phase.patience then settle target o next else .inl next
termination_by phase.patience

/-- Goes on with a waiter, as far as it gets before something moves again.  A waking counts once. -/
def resume (target : Int) (o : Observation) (phase : Phase) : Phase ⊕ Outcome :=
  match step target o phase with
  | .inr outcome => .inr outcome
  | .inl next => settle target { o with woken := false } next

/-- A waiter that is stuck in a phase has something to do under an observation: it was woken, or it
gets further. -/
def isMoved (target : Int) (o : Observation) (stuck : Phase) : Bool :=
  o.woken ||
    match resume target o stuck with
    | .inr _ => true
    | .inl next => decide (next ≠ stuck)

/-- In this phase a waiter sleeps before it looks again. -/
def naps : Phase → Bool
  | .sleeping _ 0 => true
  | _ => false

/-- In this phase a waiter gives up at its deadline. -/
def heedsDeadline : Phase → Bool
  | .gated timed _ | .suspended timed => timed
  | .budgeted _ => true
  | _ => false

end Phase

end EventRing.Wait
