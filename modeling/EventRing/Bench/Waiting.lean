import EventRing.Counter
import EventRing.Turns
import EventRing.Wait.Watch
/-!
# EventRing.Bench.Waiting

One waiter on the bench, with a cursor, the values of the consumers in front and a cancellation, all
of which the operations move by hand.  A wait goes straight to the waiter, without a barrier that
could let it pass beforehand.

A wait that would go on for ever is not begun, unless it has a helper: operations that another thread
plays while it waits.  A waiter that parks has to be woken by hand as well.
-/

namespace EventRing.Bench

open Wait (Strategy Observation Outcome Side Phase)

/-- An operation on the bench. -/
inductive WaitOp where
  | setCursor (value : Int)
  | setFront (index : Nat) (value : Int)
  | cancel
  | rearm
  | signal
  /-- Wakes the waiter, without cancelling anything. -/
  | wake
  /-- Asks whether waits are cancelled. -/
  | check
  | info
  /-- Waits for a sequence as the strategy does. -/
  | wait (side : Side) (target : Int) (helper : List WaitOp)
  /-- Waits for a sequence by pausing only, or by backing off. -/
  | spin (pausing : Bool) (target : Int) (helper : List WaitOp)

/-- A waiter and what it watches. -/
structure Waiting where
  strategy : Strategy
  waiter : Wait.Waiter
  cursor : Int
  /-- The values of the consumers in front; none means the cursor. -/
  front : Counters
  cancelled : Bool := false
  /-- How often waiters were signalled. -/
  signals : Nat := 0
  /-- How often waiters were woken without a signal. -/
  alarms : Nat := 0
  /-- The threads on the bench; a thread that is made is a helper. -/
  threads : Threads (Nat × List WaitOp) := {}

instance : Shared Waiting (Nat × List WaitOp) where
  threads := Waiting.threads
  change f b := { b with threads := f b.threads }

/-- What can be asked of the bench. -/
structure WaitInfo where
  value : Int
  cursor : Int
  front : Nat
  parks : Bool
  timeout : Option Nat
  cancelled : Bool

/-- What an operation on the bench answers. -/
inductive WaitAnswer where
  | done
  | info (info : WaitInfo)
  | outcome (outcome : Outcome)
  | wouldBlock

namespace Waiting

/-- The waiter of a consumer under a strategy, in front of it consumers at some values. -/
def setUp (strategy : Strategy) (owner : Option String) (cursor : Int) (front : List Int) :
    Waiting where
  strategy := strategy
  waiter := strategy.waiter owner
  cursor := cursor
  front := ⟨front.toArray⟩

/-- What the consumers in front allow. -/
def value (b : Waiting) : Int := b.front.behind (List.range b.front.values.size) b.cursor

/-- What the waiter finds. -/
def observe (b : Waiting) : Observation where
  cursor := b.cursor
  value := b.value
  cancelled := b.cancelled

def info (b : Waiting) : WaitInfo where
  value := b.value
  cursor := b.cursor
  front := b.front.values.size
  parks := b.strategy.parks
  timeout := b.strategy.timeout
  cancelled := b.cancelled

/-- What the waiter watches. -/
def watch : Wait.Watch Waiting where
  observe b := return b.observe
  wakings b := b.signals + b.alarms

/-- Waits from a phase on, while a helper plays if there is one. -/
def waitFrom (phase : Phase) (strategy : Strategy) (target : Int) (helper : List WaitOp) :
    Strand Waiting WaitAnswer := do
  if helper.isEmpty then
    match phase.settle target { (← get).observe with expired := true } with
    | .inl _ => return .wouldBlock
    | .inr _ => .outcome <$> watch.wait target fuel strategy phase
  else
    .outcome <$> Strand.helped (·, helper) (watch.wait target fuel strategy phase)

/-- Does something and answers that it is done. -/
def done (f : Waiting → Waiting) : Strand Waiting WaitAnswer := do
  modify f
  return .done

/-- Performs an operation. -/
def perform : WaitOp → Strand Waiting WaitAnswer
  | .setCursor value => done fun b => { b with cursor := value }
  | .setFront index value => done fun b => { b with front := b.front.set index value }
  | .cancel => done fun b => { b with cancelled := true }
  | .rearm => done fun b => { b with cancelled := false }
  | .signal => done fun b => { b with signals := b.signals + 1 }
  | .wake => done fun b => { b with alarms := b.alarms + 1 }
  | .check => return if (← get).cancelled then .outcome .cancelled else .done
  | .info => return .info (← get).info
  | .wait side target helper => do
    let b ← get
    waitFrom (b.waiter.begin side) b.strategy target helper
  | .spin pausing target helper =>
    waitFrom (if pausing then .spinning else .backingOff {}) .busySpin target helper

/-- What a helper does. -/
def begin (helper : Nat × List WaitOp) : Strand Waiting Unit :=
  Strand.help helper.1 (helper.2.forM fun op => discard (perform op))

/-- Performs operations and keeps their answers. -/
def answers (b : Waiting) (ops : List WaitOp) : List WaitAnswer × Waiting :=
  let (answers, b) := playTogether begin (ops.mapM perform) b
  ((answers.toOption).getD [], b)

end Waiting

end EventRing.Bench
