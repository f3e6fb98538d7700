import EventRing.Publisher
import EventRing.Poller
/-!
# EventRing.Bench.Tokens

A ring of events that carry nothing, with one producer and one poller that holds it back.  Such a ring
counts tokens: what matters is how many were claimed, seen and released.
-/

namespace EventRing.Bench

/-- A poll's handler looks at so many events before it asks to stop. -/
def patience : Nat := 3

/-- One round: a claim that was published, and the poll after it. -/
structure Round where
  /-- How many tokens were claimed; none if there was no room. -/
  claimed : Option Nat
  result : PollResult Unit
  /-- The tokens that the handler saw, and which it was told were the last. -/
  seen : List (Int × Bool)
  remaining : Int

namespace Tokens

variable {g : Geometry}

/-- Claims and publishes `n` tokens, if there is room. -/
def publish (n : Nat) : Action (Ring g Unit) (Option Nat) := do
  match ← Ring.tryClaim n with
  | none => return none
  | some hi =>
    let block ← Block.upTo hi n
    Ring.publishBlock block
    return some block.length

/-- Polls with a handler that notes what it sees and stops when its patience is over. -/
def poll (poller : Poller) : Action (Ring g Unit) (PollResult Unit × List (Int × Bool)) :=
  let handler (sequence : Int) (last : Bool) :
      StateT (List (Int × Bool)) (Action (Ring g Unit)) (Reply Unit) := do
    modifyThe (List (Int × Bool)) fun seen => seen ++ [(sequence, last)]
    return if (← getThe (List (Int × Bool))).length < patience then .keepGoing else .stop
  (poller.pollWithin (fun act => StateT.lift (Ring.onSequencer act)) handler).run []

/-- One round for each claim. -/
def rounds (poller : Poller) (claims : List Nat) : Action (Ring g Unit) (List Round) :=
  claims.mapM fun n => do
    let claimed ← publish n
    let (result, seen) ← poll poller
    return ⟨claimed, result, seen, ← (← get).sequencer.remaining⟩

/-- Plays rounds on a fresh ring. -/
def play (g : Geometry) (claims : List Nat) : Except Fault (List Round) :=
  let act : Action (Ring g Unit) (List Round) := do
    let counter ← Ring.onSequencer (Sequencer.makeCounter Counter.initial)
    discard <| Ring.onSequencer (Sequencer.addGates [counter])
    rounds ⟨[], counter⟩ claims
  match act (Ring.make (Sequencer.fresh g .one false) fun _ => ()) with
  | .ok answers _ => .ok answers
  | .error fault _ => .error fault

end Tokens

end EventRing.Bench
