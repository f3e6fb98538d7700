import EventRing.Script.Perform
import EventRing.Turns
/-!
# EventRing.Script.Play

Playing a script.  Operations are reported as steps; the first one that breaks off ends its list.
`Play.exec` ties the knot of nested operations, as deep as its fuel allows, and `Scenario.play` plays
a whole script with all the threads it makes.
-/

namespace EventRing.Script

variable {g : Geometry}

/-! ## Steps -/

namespace Play

/-- Reports an operation: its answer, the ring as it then looks unless other threads are at work, and
the records written since the last report. -/
def report (exec : Op → Play g Answer) (op : Op) : Play g Step := do
  let answer ← match ← (exec op).caught with
    | .ok answer => pure answer
    | .error fault => pure (.faulted fault)
  let w ← get
  let isFaulted := match answer with
    | .faulted _ => true
    | _ => false
  let view := if w.threads.others = 0 && !isFaulted then some w.view else none
  return .step answer view (← takeRecords)

/-- Reports operations one after the other, up to the first that breaks off, after those reported
already. -/
def playAll (exec : Op → Play g Answer) (steps : Array Step) : List Op → Play g (List Step)
  | [] => return steps.toList
  | op :: rest => do
    let step ← report exec op
    if step.isFaulted then return (steps.push step).toList
    playAll exec (steps.push step) rest

/-- Executes an operation and everything nested in it.  The fuel bounds the depth of the nesting and
the turns of each run. -/
def exec : Nat → Op → Play g Answer
  | 0, _ => throw .exhausted
  | fuel + 1, op => perform (playAll (exec fuel) #[]) fuel op

end Play

/-! ## Scenarios -/

/-- A scenario: what a script is played on, and its operations. -/
structure Scenario where
  producers : Producers
  strategy : Wait.Strategy
  /-- The event of slot `i` begins as `init + step * i`; nothing for a bare sequencer. -/
  events : Option (Int × Int)
  traced : Bool := false
  ops : List Op

/-- What a scenario reports: its steps, and the events of the ring at the end. -/
structure Report where
  steps : List Step
  slots : List Int

/-- What a thread does that was made by the script. -/
def Arrival.begin (arrival : Arrival) : Strand (World g) Unit :=
  let play (ops : List Op) : Play g (List Step) := Play.playAll (Play.exec fuel) #[] ops
  match arrival with
  | .worker number => Play.runThread play fuel number { isMain := false }
  | .helper number ops => Strand.help number (discard (play ops { isMain := false }))

/-- Nothing that a scenario is played on needs more addresses than there are: the laps of a ledger
that producers share take four bytes each, and the events of a ring sixteen. -/
def Scenario.fits (scenario : Scenario) (g : Geometry) : Bool :=
  (scenario.producers = .one || g.isAddressable 4) &&
    (scenario.events.isNone || g.isAddressable 16)

/-- Plays a scenario on a ring or sequencer of a given size. -/
def Scenario.play (scenario : Scenario) (g : Geometry) : Except Fault Report := do
  unless scenario.fits g do throw .tooLarge
  let sequencer := Sequencer.fresh g scenario.producers scenario.strategy.parks
  let subject := match scenario.events with
    | none => .bare sequencer
    | some (init, step) => .ring (Ring.make sequencer fun slot => Word.wrap (init + step * slot))
  let world : World g :=
    { subject := subject, strategy := scenario.strategy, traced := scenario.traced }
  let slotsOf (w : World g) : List Int := match w.subject with
    | .bare _ => []
    | .ring ring => ring.slots.toList
  let script : Play g (List Step) := Play.playAll (Play.exec fuel) #[] scenario.ops
  let (steps, w) := playTogether Arrival.begin (script { isMain := true }) world
  return ⟨(steps.toOption).getD [], slotsOf w⟩

end EventRing.Script
