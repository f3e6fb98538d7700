import EventRing.Script.Place
import EventRing.Wait.Watch
/-!
# EventRing.Script.Waiting

Waits at the barriers of a script.  A wait keeps to the barrier it began at, whatever that is called
by then.

A wait that would never end as things stand can be told beforehand (`World.wouldBlock`): followed to
where it stays while nothing moves, it is stuck there though every deadline has passed.
-/

namespace EventRing.Script

namespace World

variable {g : Geometry}

/-- What a waiter at a barrier watches. -/
def watch (number : BarrierId) : Wait.Watch (World g) where
  observe w := do return (← w.barriers.get number).observe w.sequencer
  wakings := wakings

/-- A wait that begins in a phase would not end as things stand. -/
def wouldBlock (w : World g) (barrier : Barrier) (target : Int) (phase : Wait.Phase) : Bool :=
  match phase.settle target { barrier.observe w.sequencer with expired := true } with
  | .inl _ => true
  | .inr _ => false

/-- Whoever waits at a barrier for published events from `next` on stands at a hole: the wait itself
ends at once, but `next` is not published. -/
def isAtHole (w : World g) (number : BarrierId) (side : Wait.Side) (next : Int) : Bool :=
  let published : Except Fault Wait.Outcome := do
    let barrier ← w.barriers.get number
    match barrier.enter side next w.sequencer with
    | .inr outcome => barrier.published w.sequencer next outcome
    | .inl _ => return .timeout
  match published with
  | .ok (.available available) => decide (available < next)
  | _ => false

end World

namespace Play

open World

variable {g : Geometry}

/-- Waits at a barrier as its waiter does, from a phase on, with at most `fuel` stops. -/
def waitFrom (fuel : Nat) (number : BarrierId) (target : Int) (phase : Wait.Phase) :
    Play g Wait.Outcome := fun _ => do
  (watch number).wait target fuel (← get).strategy phase

/-- Waits until a hole is filled. -/
def waitAtHole (number : BarrierId) (side : Wait.Side) (next : Int) : Play g Unit := do
  if (← get).isAtHole number side next then waitFor (fun w => !w.isAtHole number side next) none

/-- A wait at a named barrier. -/
def waitAt (fuel : Nat) (name : String) (side : Wait.Side) (published : Bool) (target : Int)
    (isHelped : Bool) : Play g Answer := do
  let number ← barrierNumber name
  let barrier ← barrierAt number
  let entered := barrier.enter side target (← get).sequencer
  if let .inl phase := entered then
    if !isHelped && (← get).wouldBlock barrier target phase then return .wouldBlock
  if side = .task && (← read).inTask then throw .nestedRuntime
  let outcome ← match entered with
    | .inl phase => waitFrom fuel number target phase
    | .inr outcome => pure outcome
  if published then
    return .waited (← (← barrierAt number).published (← get).sequencer target outcome)
  else
    return .waited outcome

end Play

end EventRing.Script
