import EventRing.Backoff
import EventRing.Ring
import EventRing.Processor.Policy
import EventRing.Wait.Gate
/-!
# EventRing.Bench.Parts

Single parts on the bench: a counter, a backoff, a gate and a policy, each driven by a list of
operations of its own, without a ring around it.
-/

namespace EventRing.Bench

/-! ## A counter -/

/-- An operation on one counter. -/
inductive CounterOp where
  | value
  | set (value : Int)
  | swap (expected value : Int)
  | add (delta : Int)
  deriving DecidableEq, Repr

/-- What an operation on a counter answers. -/
inductive CounterAnswer where
  | value (n : Int)
  /-- Whether the value was replaced, and the value afterwards. -/
  | swapped (done : Bool) (n : Int)
  deriving DecidableEq, Repr

/-- Performs an operation on a counter. -/
def CounterOp.perform : CounterOp → Action Int CounterAnswer
  | .value => .value <$> get
  | .set n => fun _ => .ok (.value n) n
  | .swap expected n => do
    let done ← Counter.compareAndSet expected n
    return .swapped done (← get)
  | .add delta => .value <$> Counter.add delta

/-- Performs operations one after the other; the first that breaks off is the last. -/
def CounterOp.performAll : List CounterOp → Int → List (Except Fault CounterAnswer) × Int
  | [], n => ([], n)
  | op :: rest, n =>
    match op.perform n with
    | .ok answer n =>
      let (answers, final) := performAll rest n
      (.ok answer :: answers, final)
    | .error fault n => ([.error fault], n)

/-! ## A backoff -/

/-- What a spinning thread does between two looks. -/
inductive Rest where
  | spin
  | snooze
  | reset
  deriving DecidableEq, Repr

/-- One rest. -/
def Rest.act : Rest → Backoff → Backoff
  | .spin => Backoff.spin
  | .snooze => Backoff.snooze
  | .reset => Backoff.reset

/-- Rests so many times each; answers after each kind whether waiting on still changes something, and
the backoff at the end. -/
def Rest.performAll : List (Rest × Nat) → Backoff → List Bool × Backoff
  | [], backoff => ([], backoff)
  | (rest, times) :: more, backoff =>
    let rested := backoff.repeated rest.act times
    let (answers, final) := performAll more rested
    (rested.isCompleted :: answers, final)

/-! ## A gate -/

/-- An operation at a gate; a thread that enters is blocked for its first `looks` looks. -/
inductive GateOp where
  | cancel
  | rearm
  | signal
  /-- Enters the gate while somebody keeps signalling. -/
  | enter (looks : Nat)
  /-- Enters the gate with a deadline, and nobody signals. -/
  | enterTimed (looks : Nat)
  deriving DecidableEq, Repr

/-- What an operation at a gate answers. -/
inductive GateAnswer where
  | done
  | left (timed : Bool) (exit : Wait.Gate.Exit)
  deriving DecidableEq, Repr

/-- Performs operations at a gate whose wait is or is not cancelled. -/
def GateOp.performAll : List GateOp → Bool → List GateAnswer
  | [], _ => []
  | .cancel :: rest, _ => .done :: performAll rest true
  | .rearm :: rest, _ => .done :: performAll rest false
  | .signal :: rest, cancelled => .done :: performAll rest cancelled
  | .enter looks :: rest, cancelled =>
    .left false (Wait.Gate.passThrough false cancelled looks) :: performAll rest cancelled
  | .enterTimed looks :: rest, cancelled =>
    .left true (Wait.Gate.passThrough true cancelled looks) :: performAll rest cancelled

/-! ## A policy -/

/-- A call of a handler that fails. -/
inductive Call where
  | event (sequence : Int)
  /-- The events from `lo` to `hi`, cut at the physical end of the ring. -/
  | batch (lo hi : Int)
  | timeout (last : Int)
  | start
  | shutdown
  deriving DecidableEq, Repr

/-- The incident of a failed call, on a ring of a given size. -/
def Call.incident (g : Geometry) : Call → Except Fault Incident
  | .event sequence => return .event sequence
  | .batch lo hi => return .batch lo (← g.batchLength lo hi)
  | .timeout last => return .timeout last
  | .start => return .start
  | .shutdown => return .shutdown

/-- The ring of eight slots that failed batches are taken from. -/
def eightSlots : Geometry := ⟨3, by decide⟩

/-- The verdict of a policy on a failed call, and the record it writes. -/
def Call.judge (call : Call) (policy : Policy) (failure : Failure) :
    Except Fault (Option Failure × Option Record) := do
  let incident ← call.incident eightSlots
  return (policy.judge incident failure, policy.recordOf incident failure)

end EventRing.Bench
